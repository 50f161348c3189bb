import Outreach.Polish.Offer
import Outreach.Proofs.Deal.Absence
import Outreach.Proofs.Json.Paths
import Outreach.World

/-!
# What Becomes of an Offer

An offer that is too short is refused before anything else happens. Any other offer becomes a text:
the words that the service suggests, or the fixed phrase with the offer. The service suggests words
only if all goes well: the key is there, a reply comes, it reports success, it is a JSON value with
words at their place, and these are not blank.

## Main results

* `Polish.interpret_eq_ok_iff`: the words that a reply brings.
* `Polish.isPolished_settle`: whatever the service answers, there is a text.
* `Polish.IsPolished.isBlankText_eq`, `Polish.IsPolished.isTrimmed`: the text can be used as it is.
* `Polish.exists_runTask_polish`: an offer that is long enough is polished.
* `Polish.polish_isUsable`: **what becomes of an offer.**
-/

namespace Outreach.Polish

variable {w : World} {s : Settings} {offer key text words : String} {minimum : Nat} {r : Reply}

/-! ### Replies -/

/-- The place for the words in the JSON of a reply. -/
def contentPath : List Json.Step :=
  [.member "candidates", .item 0, .member "content", .member "parts", .item 0, .member "text"]

/-- A reply **brings words**: it reports success, and its text is a JSON value with the words at the
place for them. -/
structure Brings (r : Reply) (words : String) : Prop where
  success : 200 ≤ r.status ∧ r.status < 300
  content : ∃ json, Json.ofText? (Text.ofBytes r.body) = some json ∧
    json.isStrict replyDepth = true ∧ json.LeadsTo contentPath (.string (some words))

/-- The content of a reply is the text that the path of names and indices leads to. -/
theorem contentOf?_eq_some_iff {json : Json} :
    contentOf? json = some words ↔ json.LeadsTo contentPath (.string (some words)) := by
  rw [← Json.follow_eq_iff (by simp)]
  have hfollow : contentOf? json = (json.follow contentPath).text? := rfl
  rw [hfollow]
  cases json.follow contentPath <;> simp [Json.text?]

/-- **The words of a reply are those that it brings.** -/
theorem interpret_eq_ok_iff : interpret r = .ok words ↔ Brings r words := by
  simp only [interpret, Bool.or_eq_true, decide_eq_true_eq]
  constructor
  · intro h
    split at h
    · simp at h
    · rename_i hstatus
      split at h
      · simp at h
      · rename_i json hjson
        split at h
        · simp at h
        · rename_i found hfound
          obtain rfl := Except.ok.inj h
          obtain ⟨hread, hstrict⟩ := Option.filter_eq_some_iff.mp hjson
          exact ⟨by omega, json, hread, hstrict, contentOf?_eq_some_iff.mp hfound⟩
  · rintro ⟨⟨hlow, hhigh⟩, json, hread, hstrict, hpath⟩
    have hstatus : ¬ (r.status < 200 ∨ 300 ≤ r.status) := by omega
    rw [if_neg hstatus, hread, Option.filter_some, if_pos hstrict]
    simp only [contentOf?_eq_some_iff.mpr hpath]

/-- What a client makes of what the service answers: the words of a reply, or the fault that there
is none. -/
def hear : Except String Reply → Except Fault String
  | .error reason => .error (.unreachable reason)
  | .ok reply => interpret reply

/-- A client hears words exactly if the service answers with a reply that brings them. -/
theorem hear_eq_ok_iff {answer : Except String Reply} :
    hear answer = .ok words ↔ ∃ reply, answer = .ok reply ∧ Brings reply words := by
  cases answer with
  | error reason => simp [hear]
  | ok reply => simp [hear, interpret_eq_ok_iff]

/-! ### Offers -/

/-- An offer is **too short** to be polished: without the blanks at its ends it is empty or the word
for a field left out, or it has fewer characters than are asked for. -/
def IsTooShort (offer : String) (minimum : Nat) : Prop :=
  Text.trim offer = "" ∨ Text.trim offer = "無" ∨ (Text.trim offer).length < minimum

instance (offer : String) (minimum : Nat) : Decidable (IsTooShort offer minimum) :=
  inferInstanceAs (Decidable (_ ∨ _ ∨ _))

/-- An offer is refused exactly if it is too short. -/
theorem checkOffer_eq (offer : String) (minimum : Nat) :
    checkOffer offer minimum =
      if IsTooShort offer minimum then .error (.offerTooShort minimum) else .ok () := by
  have hshort : (isAbsent offer || decide ((Text.trim offer).length < minimum)) = true ↔
      IsTooShort offer minimum := by
    simp [isAbsent_iff, IsTooShort, or_assoc]
  simp only [checkOffer, hshort]
  rfl

/-- The environment **holds a key** for the service, which is not blank. -/
def HoldsKey (s : Settings) (w : World) (key : String) : Prop :=
  w.environment.lookup s.keyVariable = some key ∧ Text.trim key ≠ ""

/-- The environment holds at most one key for the service. -/
theorem HoldsKey.unique {other : String} (h : HoldsKey s w key) (h' : HoldsKey s w other) :
    other = key :=
  Option.some.inj (h'.1.symm.trans h.1)

/-- The message that asks the service to polish an offer. -/
def posting (s : Settings) (key offer : String) : Posting :=
  (Client.ofKey s key).posting (prompt (Text.trim offer))

/-- The service **suggests** words for an offer: there is a key, the message is answered by a reply,
and the words that it brings are not blank. -/
def Suggests (s : Settings) (w : World) (offer words : String) : Prop :=
  ∃ key reply, HoldsKey s w key ∧ w.service (posting s key offer) = .ok reply ∧
    Brings reply words ∧ Text.trim words ≠ ""

/-- What an offer **is polished to**: the words that are suggested for it, or the fixed phrase. -/
inductive IsPolished (s : Settings) (w : World) (offer : String) : String → Prop
  | words {words : String} (suggested : Suggests s w offer words) :
      IsPolished s w offer (Text.trim words)
  | fallback (unaided : ∀ words, ¬ Suggests s w offer words) :
      IsPolished s w offer (fallback (Text.trim offer))

/-! ### The two ways to a text -/

/-- Without a key nothing is suggested. -/
theorem not_suggests_of_no_key (h : ∀ key, ¬ HoldsKey s w key) (words : String) :
    ¬ Suggests s w offer words := by
  rintro ⟨key, -, hkey, -⟩
  exact h key hkey

/-- With a key, what is suggested is what the client hears, unless this is blank. -/
theorem suggests_iff (hkey : HoldsKey s w key) :
    Suggests s w offer words ↔
      hear (w.service (posting s key offer)) = .ok words ∧ Text.trim words ≠ "" := by
  rw [hear_eq_ok_iff]
  constructor
  · rintro ⟨other, reply, hother, hreply, hbrings, hwords⟩
    obtain rfl := hkey.unique hother
    exact ⟨⟨reply, hreply, hbrings⟩, hwords⟩
  · rintro ⟨⟨reply, hreply, hbrings⟩, hwords⟩
    exact ⟨key, reply, hkey, hreply, hbrings, hwords⟩

/-- **Whatever the service answers, the offer is polished.** -/
theorem isPolished_settle (hkey : HoldsKey s w key) (offer : String) :
    IsPolished s w offer
      (settle (Text.trim offer) (hear (w.service (posting s key offer)))) := by
  cases hanswer : hear (w.service (posting s key offer)) with
  | error fault =>
      refine .fallback fun words hwords => ?_
      rw [suggests_iff hkey, hanswer] at hwords
      exact absurd hwords.1 (by simp)
  | ok found =>
      by_cases hblank : Text.trim found = ""
      · have hempty : Text.isBlankText found = true := String.isEmpty_iff.mpr hblank
        simp only [settle, hempty, if_true]
        refine .fallback fun words hwords => ?_
        rw [suggests_iff hkey, hanswer] at hwords
        obtain rfl := Except.ok.inj hwords.1
        exact hwords.2 hblank
      · have hfilled : Text.isBlankText found = false := String.isEmpty_eq_false_iff.mpr hblank
        simp only [settle, hfilled, Bool.false_eq_true, if_false]
        have hsuggested : Suggests s w offer found := (suggests_iff hkey).mpr ⟨hanswer, hblank⟩
        exact .words hsuggested

/-! ### The text -/

/-- The fixed phrase for an offer is a greeting to fans with the offer itself behind it. -/
theorem toList_fallback (offer : String) :
    (fallback offer).toList = "為您的粉絲提供特別優惠：".toList ++ offer.toList :=
  String.toList_append

/-- **The text that an offer is polished to is not blank.** -/
theorem IsPolished.isBlankText_eq (h : IsPolished s w offer text) :
    Text.isBlankText text = false := by
  cases h with
  | words hwords =>
      obtain ⟨-, -, -, -, -, hfilled⟩ := hwords
      rw [Text.isBlankText, Text.trim_trim]
      exact String.isEmpty_eq_false_iff.mpr hfilled
  | fallback _ =>
      refine Text.isBlankText_of_mem (c := '為') ?_ (by decide)
      rw [toList_fallback]
      exact List.mem_append_left _ (by decide)

/-- **No blank stands at its ends.** -/
theorem IsPolished.isTrimmed (hoffer : Text.trim offer ≠ "") (h : IsPolished s w offer text) :
    Text.IsTrimmed text.toList := by
  have htrimmed : ∀ t : String, Text.IsTrimmed (Text.trim t).toList := fun t => by
    rw [Text.trim, String.toList_ofList]
    exact Text.isTrimmed_trimChars _
  cases h with
  | words _ => exact htrimmed _
  | fallback _ =>
      rw [toList_fallback]
      refine ⟨fun c hc => ?_, fun c hc => ?_⟩
      · obtain rfl : '為' = c := by simpa using hc
        decide
      · have hne : (Text.trim offer).toList ≠ [] := by simpa using hoffer
        rw [List.getLast?_append, List.getLast?_eq_some_getLast hne, Option.some_or] at hc
        exact (htrimmed offer).back c ((List.getLast?_eq_some_getLast hne).trans hc)

/-! ### Polishing -/

/-- Asking the service posts one message and leaves the rest of the world as it is. -/
theorem run_generate (w : World) (c : Client) (prompt : String) :
    w.run (c.generate prompt) = (hear (w.service (c.posting prompt)),
      { w with sent := w.sent ++ [c.posting prompt] }) := by
  rw [Client.generate, Program.bind_eq, World.run_bind, World.run_request]
  simp only [World.answer]
  cases w.service (c.posting prompt) <;> rfl

/-- With a key in the environment there is a client for the service. -/
theorem run_ofSettings (hkey : HoldsKey s w key) :
    w.run (Client.ofSettings s) = (.ok (Client.ofKey s key), w) := by
  have hfilled : (some key).filter (!Text.isBlankText ·) = some key := by
    rw [Option.filter_some, if_pos]
    simpa [Text.isBlankText] using hkey.2
  rw [Client.ofSettings, Program.bind_eq, World.run_bind, World.run_request]
  simp only [World.answer, hkey.1, hfilled]
  rfl

/-- Without a key there is no client, and what is missing is named by its variable. -/
theorem run_ofSettings_of_no_key (h : ∀ key, ¬ HoldsKey s w key) :
    w.run (Client.ofSettings s) = (.error (.keyMissing s.keyVariable), w) := by
  have hnone : (w.environment.lookup s.keyVariable).filter (!Text.isBlankText ·) = none := by
    rw [Option.filter_eq_none_iff]
    intro key hkey hfilled
    exact h key ⟨hkey, by simpa [Text.isBlankText] using hfilled⟩
  rw [Client.ofSettings, Program.bind_eq, World.run_bind, World.run_request]
  simp only [World.answer, hnone]
  rfl

/-- An offer that is too short is refused, and that is all. -/
theorem runTask_polish_of_isTooShort (h : IsTooShort offer s.minimumLength.toNat) :
    w.runTask (polish s offer) = (.error (.offerTooShort s.minimumLength.toNat), w) := by
  rw [polish, World.runTask_bind, checkOffer_eq, if_pos h]
  rfl

/-- Without a key the fixed phrase is the answer, and that is all. -/
theorem runTask_polish_of_no_key (h : ¬ IsTooShort offer s.minimumLength.toNat)
    (hkey : ∀ key, ¬ HoldsKey s w key) :
    w.runTask (polish s offer) = (.ok (fallback (Text.trim offer)), w) := by
  rw [polish, World.runTask_bind, checkOffer_eq, if_neg h]
  simp only [Task.ofExcept, World.runTask_pure, World.runTask_ofProgram, Program.bind_eq,
    World.run_bind, run_ofSettings_of_no_key hkey]
  rfl

/-- With a key the model is asked once, and its answer is settled. -/
theorem runTask_polish_of_key (h : ¬ IsTooShort offer s.minimumLength.toNat)
    (hkey : HoldsKey s w key) :
    w.runTask (polish s offer) =
      (.ok (settle (Text.trim offer) (hear (w.service (posting s key offer)))),
        { w with sent := w.sent ++ [posting s key offer] }) := by
  rw [polish, World.runTask_bind, checkOffer_eq, if_neg h]
  simp only [Task.ofExcept, World.runTask_pure, World.runTask_ofProgram, Program.bind_eq,
    World.run_bind, run_ofSettings hkey, polishWith, run_generate]
  rfl

/-- **An offer that is long enough is polished.** If there is a key, one message has been sent, and if
there is none, nothing. -/
theorem exists_runTask_polish (hlong : ¬ IsTooShort offer s.minimumLength.toNat) :
    ∃ text v, w.runTask (polish s offer) = (.ok text, v) ∧ IsPolished s w offer text ∧
      (∀ key, HoldsKey s w key → v = { w with sent := w.sent ++ [posting s key offer] }) ∧
      ((∀ key, ¬ HoldsKey s w key) → v = w) := by
  by_cases hkey : ∃ key, HoldsKey s w key
  · obtain ⟨key, hkey⟩ := hkey
    refine ⟨_, _, runTask_polish_of_key hlong hkey, isPolished_settle hkey offer,
      fun other hother => ?_, fun hnone => ?_⟩
    · rw [hkey.unique hother]
    · exact absurd hkey (hnone key)
  · have hnone : ∀ key, ¬ HoldsKey s w key := fun key h => hkey ⟨key, h⟩
    refine ⟨_, w, runTask_polish_of_no_key hlong hnone, ?_, fun key h => ?_, fun _ => rfl⟩
    · exact .fallback (not_suggests_of_no_key hnone)
    · exact absurd h (hnone key)

/-- **What becomes of an offer.** One that is too short is refused, and nothing is sent. Any other
becomes the text that it is polished to, which is not blank and has no blanks at its ends; if there
is a key, one message has been sent, and if there is none, nothing. -/
theorem polish_isUsable (s : Settings) (w : World) (offer : String) :
    (IsTooShort offer s.minimumLength.toNat →
      w.runTask (polish s offer) = (.error (.offerTooShort s.minimumLength.toNat), w)) ∧
    (¬ IsTooShort offer s.minimumLength.toNat →
      ∃ text v, w.runTask (polish s offer) = (.ok text, v) ∧ IsPolished s w offer text ∧
        Text.isBlankText text = false ∧ Text.IsTrimmed text.toList ∧
        (∀ key, HoldsKey s w key → v = { w with sent := w.sent ++ [posting s key offer] }) ∧
        ((∀ key, ¬ HoldsKey s w key) → v = w)) := by
  refine ⟨runTask_polish_of_isTooShort, fun hlong => ?_⟩
  have hoffer : Text.trim offer ≠ "" := fun hempty => hlong (.inl hempty)
  obtain ⟨text, v, hrun, hpolished, hsent⟩ := exists_runTask_polish hlong
  exact ⟨text, v, hrun, hpolished, hpolished.isBlankText_eq, hpolished.isTrimmed hoffer, hsent⟩

end Outreach.Polish
