import Outreach.Message.BuiltIn
import Outreach.Proofs.Deal.Views
import Outreach.Proofs.Message.Forms

/-!
# The Built-In Form

The built-in template is a form: a text for every deal, with a passage for each of four fields that
a deal may leave out, and one for each choice for the hand controller.

## Main results

* `source_builtInForm`: the built-in template is written out from the form.
* `controllerLine_isInfix_iff`: the line of a choice stays exactly if the choice has been made.
* `render_builtInTemplate`: **the built-in template renders every deal as it is meant.**
-/

namespace Outreach.Message

open Text Mark

/-- What the built-in template says on a choice for the hand controller. -/
def controllerLine : SendHandle → List Mark
  | .yes => ofText "🔹會再補 7DS-ZAPA 手把，日後也可以評估薩爾達無雙的合作案喔"
  | .no => ofText "🔹如果有需要素材，我們都可以提供免費的素材包"

/-- The **built-in form**: the built-in template as passages, each with the condition on which it
stays. -/
def builtInForm : Form where
  passages :=
    [⟨.always, ofText "HI " ++ place .contactPerson :: ofText "，如剛剛討論，提供方案給 " ++
        place .kolName :: ofText " 參考唷\n\n<<< 合作模式與分潤 >>>\n🔹採 " ++
        place .profitShare :: ofText " 分潤機制"⟩,
      ⟨.present .guaranteedMinimum,
        ofText "，並提供 " ++ place .guaranteedMinimum :: ofText " 保底"⟩,
      ⟨.always, ofText "\n🔹透過 " ++ place .kolName :: ofText " 的專屬頁面成交，提供銷售額的 " ++
        place .profitShare :: ofText " 作為回饋(扣除物流成本)\n"⟩,
      ⟨.present .bonusAmount,
        ofText "🔹除分潤方案，將額外提供 " ++ place .bonusAmount :: ofText " 作為加碼獎勵"⟩,
      ⟨.always, ofText "\n"⟩,
      ⟨.present .performanceThreshold,
        ofText "🔹如果業績達到 " ++ place .performanceThreshold :: ofText "，則分潤提升至 " ++
          [place .profitShareBonus]⟩,
      ⟨.always, ofText "\n"⟩,
      ⟨.present .fanOffer, ofText "<<<粉絲福利>>>\n" ++ [place .fanOffer]⟩,
      ⟨.always, ofText "\n\n<<< 成效追蹤 >>>\n🔹會為 " ++
        place .kolName :: ofText " 建立專屬頁面與連結\n🔹提供報表連結，方便追蹤轉單並調整內容節奏" ++
        ofText "\n\n<<< 時程安排 >>>\n🔹初期合作至 " ++
        place .endDate :: ofText "，後續可思考長期合作\n"⟩,
      ⟨.choice .yes, controllerLine .yes⟩,
      ⟨.always, ofText "\n"⟩,
      ⟨.choice .no, controllerLine .no⟩,
      ⟨.always, ofText "\n\n再麻煩 " ++
        place .kolName :: ofText " 評估看看🙏期待可以合作一波~~"⟩]
  plain := by
    simp only [controllerLine, ofText]
    repeat rw [String.toList_ofList]
    decide +kernel

/-- **The built-in template is written out from the form.** -/
theorem source_builtInForm : builtInForm.source = builtInTemplate.toList := by
  have hlines : builtInTemplate.toList = ['\n'].intercalate (builtInLines.map String.toList) :=
    String.toList_intercalate
  rw [hlines]
  simp only [builtInForm, builtInLines, Form.source, controllerLine, ofText, List.map_cons,
    List.map_nil]
  repeat rw [String.toList_ofList]
  decide +kernel

/-! ### The hand controller -/

variable {raw : Field → String}

/-- The line of a choice has a character that no other passage has. -/
theorem exists_mark_of_choice (c : SendHandle) : ∃ m ∈ controllerLine c,
    ∀ s ∈ builtInForm.passages, m ∈ s.content → s.condition = .choice c := by
  cases c with
  | yes =>
      refine ⟨char '7', ?_⟩
      simp only [builtInForm, controllerLine, ofText]
      repeat rw [String.toList_ofList]
      decide +kernel
  | no =>
      refine ⟨char '素', ?_⟩
      simp only [builtInForm, controllerLine, ofText]
      repeat rw [String.toList_ofList]
      decide +kernel

/-- The line about the hand controller has no line break, whatever the choice. -/
theorem feed_notMem_controllerLine (c : SendHandle) : feed ∉ controllerLine c := by
  cases c with
  | yes =>
      rw [controllerLine, ofText, String.toList_ofList]
      decide
  | no =>
      rw [controllerLine, ofText, String.toList_ofList]
      decide

/-- **The line of a choice stays exactly if the choice has been made.** -/
theorem controllerLine_isInfix_iff (c : SendHandle) :
    controllerLine c <:+: builtInForm.marks raw ↔ (Condition.choice c).Holds raw := by
  constructor
  · rintro h
    obtain ⟨m, hm, hunique⟩ := exists_mark_of_choice c
    obtain ⟨s, hs, hholds, hmem⟩ :=
      Form.exists_of_mem_kept (mem_of_mem_reduceBreaks (h.subset hm))
    rwa [hunique s hs hmem] at hholds
  · intro h
    have hpassage : ⟨.choice c, controllerLine c⟩ ∈ builtInForm.passages := by
      cases c <;> simp [builtInForm]
    exact isInfix_reduceBreaks (feed_notMem_controllerLine c) (Form.isInfix_kept hpassage h)

/-! ### Messages -/

/-- What the form is filled in to needs no trimming. -/
theorem isTrimmed_builtInForm (values : Field → String) :
    IsTrimmed ((builtInForm.marks raw).flatMap (Mark.fill values)) := by
  have hfirst : (builtInForm.marks raw).head? = some (char 'H') :=
    Form.head?_marks rfl rfl (by decide)
  have hlast : (builtInForm.marks raw).getLast? = some (char '~') :=
    Form.getLast?_marks rfl rfl (by decide)
  exact isTrimmed_flatMap_fill hfirst hlast (by decide) (by decide)

/-- **The built-in template renders every deal as it is meant.** -/
theorem render_builtInTemplate (p : Display) (r : Record) (raw : Field → String)
    (hraw : ∀ f, r.get? f.name = some (raw f)) :
    builtInForm.source = builtInTemplate.toList ∧
    render p builtInTemplate r = String.ofList
      ((builtInForm.marks raw).flatMap (Mark.fill fun f => p.showField f.name (raw f))) ∧
    (∀ base t, Terms.ofRecord r base = .ok t →
      ∀ c, controllerLine c <:+: builtInForm.marks raw ↔ c = t.sendHandle) ∧
    ∀ c, char c ∈ builtInForm.marks raw → c ∉ ['[', ']', '\x7b', '\x7d'] := by
  refine ⟨source_builtInForm, ?_, fun base t ht c => ?_, fun c hc hmem => ?_⟩
  · rw [render, ← source_builtInForm, builtInForm.fillTemplate_source p hraw,
      (isTrimmed_builtInForm _).trimChars_eq]
  · have hchoice := (Terms.ofRecord_eq_ok ht).2 _ (hraw .sendHandle)
    rw [SendHandle.ofText?_eq_some_iff] at hchoice
    rw [controllerLine_isInfix_iff, Condition.Holds, hchoice]
    exact ⟨fun h => (SendHandle.text_injective h).symm, fun h => h ▸ rfl⟩
  · exact Form.isPlain_of_mem_marks hc (List.mem_append_left ['\r'] hmem)

/-- A deal without a minimum and a bonus, with values that look like blocks, tokens and breaks. -/
theorem render_builtInTemplate_hostile :
    let t : Terms := ⟨"\x7bkolName\x7d\n\n\n", "[if: fanOffer|\x7b]", "15", " 無\n", "", "150000",
      "20%", "]\r\n\n\n[if: sendHandle=是|\x7bsendHandle\x7d]", "\x7d", .no⟩
    let r := t.toRecord
    (∀ f, r.get? f.name = some (t.get f)) ∧ Terms.ofRecord r t = .ok t ∧
    builtInForm.source = builtInTemplate.toList ∧
    render default builtInTemplate r = String.ofList ((builtInForm.marks t.get).flatMap
      (Mark.fill fun f => (default : Display).showField f.name (t.get f))) ∧
    (∀ base t', Terms.ofRecord r base = .ok t' →
      ∀ c, controllerLine c <:+: builtInForm.marks t.get ↔ c = t'.sendHandle) ∧
    ∀ c, char c ∈ builtInForm.marks t.get → c ∉ ['[', ']', '\x7b', '\x7d'] := by
  intro t r
  have hraw := t.get?_toRecord
  exact ⟨hraw, t.ofRecord_toRecord t, render_builtInTemplate default r t.get hraw⟩

end Outreach.Message
