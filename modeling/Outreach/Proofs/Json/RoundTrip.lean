import Outreach.Json.Reader
import Outreach.Proofs.Json.Strings

/-!
# JSON Read Back

Between a value and its text stand its tokens. Writing a value and cutting the text gives the
tokens of the value, and reading the tokens of a value gives the value, in both cases whatever
follows. So a value without numbers, all of whose strings are text, is what its text reads as.

## Main results

* `readValue_tokens`: reading the tokens of a value.
* `IsTextual.readsAs_write`: a written value reads as its tokens.
* `IsTextual.ofText?_toText`: **a value reads back**, also with blanks after its text.
-/

namespace Outreach.Json

/-! ### The tokens of a value -/

mutual

/-- The tokens of a value, without any blanks between them. -/
def tokens : Json → List Token
  | null => [.null]
  | bool b => [.bool b]
  | number n => [.number n]
  | string s => [.string s]
  | array [] => [.beginArray, .endArray]
  | array (item :: items) => .beginArray :: (item.tokens ++ (itemTokens items ++ [.endArray]))
  | object [] => [.beginObject, .endObject]
  | object ((key, value) :: members) =>
    .beginObject :: .string key :: .colon ::
      (value.tokens ++ (memberTokens members ++ [.endObject]))

/-- The tokens of the items of an array after the first. -/
def itemTokens : List Json → List Token
  | [] => []
  | item :: items => .comma :: (item.tokens ++ itemTokens items)

/-- The tokens of the members of an object after the first. -/
def memberTokens : List (Option String × Json) → List Token
  | [] => []
  | (key, value) :: members =>
    .comma :: .string key :: .colon :: (value.tokens ++ memberTokens members)

end

/-! ### Reading the tokens of a value -/

/-- No value starts with the end of an array. -/
theorem head?_tokens_append_ne (json : Json) (ts : List Token) :
    (json.tokens ++ ts).head? ≠ some .endArray := by
  match json with
  | null | bool b | number n | string s => simp [tokens]
  | array [] | array (item :: items) => simp [tokens]
  | object [] | object ((key, value) :: members) => simp [tokens]

/-- An array that does not end at once is open for its first item. -/
theorem readValue_beginArray {frames : List Frame} {ts : List Token}
    (h : ts.head? ≠ some .endArray) :
    readValue frames (.beginArray :: ts) = readValue (.array [] :: frames) ts := by
  rw [readValue]
  rintro ts' rfl
  exact h rfl

mutual

/-- **Reading the tokens of a value gives the value**, whatever follows. -/
theorem readValue_tokens (frames : List Frame) (json : Json) (rest : List Token) :
    readValue frames (json.tokens ++ rest) = readAfter frames json rest := by
  match json with
  | null => rfl
  | bool b => rfl
  | number n => rfl
  | string s => rfl
  | array [] => rw [tokens]; rfl
  | array (item :: items) =>
      rw [tokens, List.cons_append, List.append_assoc,
        readValue_beginArray (head?_tokens_append_ne item _), readValue_tokens, List.append_assoc]
      exact readAfter_itemTokens frames [] item items rest
  | object [] => rw [tokens]; rfl
  | object ((key, value) :: members) =>
      rw [tokens, List.cons_append, List.cons_append, List.cons_append, List.append_assoc,
        readValue, readValue_tokens, List.append_assoc]
      exact readAfter_memberTokens frames [] key value members rest

/-- Reading on within an array gives the array. -/
theorem readAfter_itemTokens (frames : List Frame) (before : List Json) (value : Json)
    (items : List Json) (rest : List Token) :
    readAfter (.array before :: frames) value (itemTokens items ++ .endArray :: rest) =
      readAfter frames (.array (before.reverse ++ value :: items)) rest := by
  match items with
  | [] => simp [itemTokens, readAfter]
  | item :: items =>
      rw [itemTokens, List.cons_append, List.append_assoc, readAfter, readValue_tokens,
        readAfter_itemTokens]
      simp

/-- Reading on within an object gives the object. -/
theorem readAfter_memberTokens (frames : List Frame) (before : List (Option String × Json))
    (key : Option String) (value : Json) (members : List (Option String × Json))
    (rest : List Token) :
    readAfter (.object before key :: frames) value (memberTokens members ++ .endObject :: rest) =
      readAfter frames (.object (before.reverse ++ (key, value) :: members)) rest := by
  match members with
  | [] => simp [memberTokens, readAfter]
  | (next, item) :: members =>
      rw [memberTokens, List.cons_append, List.cons_append, List.cons_append, List.append_assoc,
        readAfter, readValue_tokens, readAfter_memberTokens]
      simp

end

/-! ### Cutting a text into tokens -/

/-- A text **reads as** tokens: whatever follows it, its tokens come first. -/
def ReadsAs (cs : List Char) (ts : List Token) : Prop :=
  ∀ rest, tokens? (cs ++ rest) = (tokens? rest).map (ts ++ ·)

/-- Two texts that read as tokens, one behind the other, read as the tokens of both. -/
theorem ReadsAs.append {cs cs' : List Char} {ts ts' : List Token} (h : ReadsAs cs ts)
    (h' : ReadsAs cs' ts') : ReadsAs (cs ++ cs') (ts ++ ts') := by
  intro rest
  rw [List.append_assoc, h, h', Option.map_map]
  congr 1
  funext us
  exact (List.append_assoc ts ts' us).symm

/-- No token starts with a blank. -/
theorem read?_eq_none_of_isSpace {c : Char} (h : isSpace c = true) (cs : List Char) :
    Token.read? (c :: cs) = none := by
  simp only [isSpace, Bool.or_eq_true, beq_iff_eq] at h
  rcases h with ((rfl | rfl) | rfl) | rfl <;> rfl

/-- The tokens of a text are the first one that is read and those of the rest. -/
theorem tokens?_of_read? {cs rest : List Char} {t : Token}
    (h : Token.read? cs = some (t, rest)) : tokens? cs = (tokens? rest).map (t :: ·) := by
  cases cs with
  | nil => simp [Token.read?, readNumber?, readUnsigned?, readWhole?, readDigits?] at h
  | cons c cs =>
      have hc : ¬ isSpace c = true := by
        intro hc
        rw [read?_eq_none_of_isSpace hc] at h
        exact absurd h (by simp)
      rw [tokens?, if_neg hc]
      split
      · rename_i hnone
        rw [h] at hnone
        exact absurd hnone (by simp)
      · rename_i t' rest' hsome
        rw [h] at hsome
        obtain ⟨rfl, rfl⟩ := Prod.mk.inj (Option.some.inj hsome)
        rfl

/-- A text that is read as one token, whatever follows. -/
theorem readsAs_of_read? {cs : List Char} {t : Token}
    (h : ∀ rest, Token.read? (cs ++ rest) = some (t, rest)) : ReadsAs cs [t] :=
  fun rest => tokens?_of_read? (h rest)

/-- The empty text reads as no tokens. -/
theorem readsAs_nil : ReadsAs [] [] := by
  intro rest
  simp

/-- Blanks are no tokens. -/
theorem readsAs_blanks {cs : List Char} (h : ∀ c ∈ cs, isSpace c = true) : ReadsAs cs [] := by
  induction cs with
  | nil => exact readsAs_nil
  | cons c cs ih =>
      intro rest
      rw [List.cons_append, tokens?, if_pos (h c List.mem_cons_self)]
      exact ih (fun d hd => h d (List.mem_cons_of_mem c hd)) rest

/-- A new line with its indentation reads as no tokens. -/
theorem readsAs_newline (level : Nat) : ReadsAs (newline level) [] := by
  refine readsAs_blanks fun c hc => ?_
  rcases List.mem_cons.mp hc with rfl | hc
  · rfl
  · rw [List.eq_of_mem_replicate hc]
    rfl

/-- A string as it is written reads as one token with that string. -/
theorem readsAs_writeString (s : String) : ReadsAs (writeString (some s)) [.string (some s)] :=
  readsAs_of_read? (read?_writeString s)

/-- A key with the colon and the blank after it. -/
theorem readsAs_key (s : String) :
    ReadsAs (writeString (some s) ++ [':', ' ']) [.string (some s), .colon] := by
  have hcolon : ReadsAs [':'] [.colon] := readsAs_of_read? fun rest => rfl
  have hblank : ReadsAs [' '] [] := by
    refine readsAs_blanks fun c hc => ?_
    rw [List.mem_singleton.mp hc]
    rfl
  exact (readsAs_writeString s).append (hcolon.append hblank)

/-! ### Values without numbers -/

/-- A value is **textual**: it holds no number, and all its strings are text. -/
inductive IsTextual : Json → Prop
  | null : IsTextual null
  | bool (b : Bool) : IsTextual (bool b)
  | string (s : String) : IsTextual (ofString s)
  | array {items : List Json} : (∀ item ∈ items, IsTextual item) → IsTextual (array items)
  | object {members : List (Option String × Json)} :
      (∀ m ∈ members, m.1.isSome) → (∀ m ∈ members, IsTextual m.2) → IsTextual (object members)

/-- The items after the first read as theirs if each item does. -/
theorem readsAs_writeItems (level : Nat) {items : List Json}
    (h : ∀ item ∈ items, ReadsAs (item.write level) item.tokens) :
    ReadsAs (writeItems level items) (itemTokens items) := by
  induction items with
  | nil =>
      rw [writeItems, itemTokens]
      exact readsAs_nil
  | cons item items ih =>
      rw [writeItems, itemTokens]
      have hcomma : ReadsAs [','] [.comma] := readsAs_of_read? fun rest => rfl
      have hitem := h item List.mem_cons_self
      have hitems := ih fun i hi => h i (List.mem_cons_of_mem item hi)
      simpa using hcomma.append ((readsAs_newline level).append (hitem.append hitems))

/-- The members after the first read as theirs if each of their values does. -/
theorem readsAs_writeMembers (level : Nat) {members : List (Option String × Json)}
    (hkeys : ∀ m ∈ members, m.1.isSome)
    (h : ∀ m ∈ members, ReadsAs (m.2.write level) m.2.tokens) :
    ReadsAs (writeMembers level members) (memberTokens members) := by
  induction members with
  | nil =>
      rw [writeMembers, memberTokens]
      exact readsAs_nil
  | cons m members ih =>
      obtain ⟨key, value⟩ := m
      obtain ⟨key, rfl⟩ := Option.isSome_iff_exists.mp (hkeys _ List.mem_cons_self)
      rw [writeMembers, memberTokens]
      have hcomma : ReadsAs [','] [.comma] := readsAs_of_read? fun rest => rfl
      have hvalue := h _ List.mem_cons_self
      have hmembers := ih (fun m hm => hkeys m (List.mem_cons_of_mem _ hm))
        fun m hm => h m (List.mem_cons_of_mem _ hm)
      simpa using hcomma.append ((readsAs_newline level).append
        ((readsAs_key key).append (hvalue.append hmembers)))

/-- A written value reads as its tokens, at any level. -/
theorem IsTextual.readsAs_write {json : Json} (h : json.IsTextual) (level : Nat) :
    ReadsAs (json.write level) json.tokens := by
  induction h generalizing level with
  | null => exact readsAs_of_read? fun rest => rfl
  | bool b => cases b <;> exact readsAs_of_read? fun rest => rfl
  | string s => exact readsAs_writeString s
  | @array items _ ih =>
      have hopen : ReadsAs ['['] [.beginArray] := readsAs_of_read? fun rest => rfl
      have hclose : ReadsAs [']'] [.endArray] := readsAs_of_read? fun rest => rfl
      cases items with
      | nil =>
          rw [write, tokens]
          exact hopen.append hclose
      | cons item items =>
          have hitem := ih item List.mem_cons_self (level + 1)
          have hitems := readsAs_writeItems (level + 1)
            fun i hi => ih i (List.mem_cons_of_mem item hi) (level + 1)
          rw [write, tokens]
          simpa using hopen.append ((readsAs_newline (level + 1)).append
            (hitem.append (hitems.append ((readsAs_newline level).append hclose))))
  | @object members hkeys _ ih =>
      have hopen : ReadsAs ['\x7b'] [.beginObject] := readsAs_of_read? fun rest => rfl
      have hclose : ReadsAs ['\x7d'] [.endObject] := readsAs_of_read? fun rest => rfl
      cases members with
      | nil =>
          rw [write, tokens]
          exact hopen.append hclose
      | cons m members =>
          obtain ⟨key, value⟩ := m
          obtain ⟨key, rfl⟩ := Option.isSome_iff_exists.mp (hkeys _ List.mem_cons_self)
          have hvalue := ih _ List.mem_cons_self (level + 1)
          have hmembers := readsAs_writeMembers (level + 1)
            (fun m hm => hkeys m (List.mem_cons_of_mem _ hm))
            fun m hm => ih m (List.mem_cons_of_mem _ hm) (level + 1)
          rw [write, tokens]
          simpa using hopen.append ((readsAs_newline (level + 1)).append
            ((readsAs_key key).append (hvalue.append
              (hmembers.append ((readsAs_newline level).append hclose)))))

/-- **A value reads back** from its text, also with blanks after it. -/
theorem IsTextual.ofText?_toText {json : Json} (h : json.IsTextual) {after : String}
    (hafter : ∀ c ∈ after.toList, isSpace c = true) :
    ofText? (json.toText ++ after) = some json := by
  have htokens : tokens? (json.toText ++ after).toList = some json.tokens := by
    have := ((h.readsAs_write 0).append (readsAs_blanks hafter)) []
    simpa [toText, tokens?] using this
  have hread := readValue_tokens [] json []
  rw [List.append_nil] at hread
  rw [ofText?, htokens, Option.bind_some, hread]
  rfl

end Outreach.Json
