import Outreach.Proofs.Json.RoundTrip

/-!
# The Tokens That a Value Is Read From

Values that stand open have left their first tokens behind. What a reader has passed and what it
has in front of it are together the tokens of the value that it comes to, so a value is read from
its own tokens only.

## Main results

* `tokens_of_readValue`, `tokens_of_readAfter`: one step from the inside to the outside.
* `ofText?_eq_some_iff`: **a text reads as a value exactly if it has its tokens**.
-/

namespace Outreach.Json

/-! ### Values that stand open -/

/-- The tokens of a member of an object: its name, a colon and those of its value. -/
def openMember (m : Option String × Json) : List Token :=
  .string m.1 :: .colon :: m.2.tokens

/-- The tokens that a frame has left behind: the bracket that opened it, and what has come since. -/
def Frame.tokens : Frame → List Token
  | .array before => .beginArray :: before.reverse.flatMap fun item => item.tokens ++ [.comma]
  | .object before key =>
    .beginObject :: before.reverse.flatMap (fun m => openMember m ++ [.comma]) ++
      [.string key, .colon]

/-- The tokens that frames have left behind, those of the outermost first. -/
def openTokens : List Frame → List Token
  | [] => []
  | frame :: frames => openTokens frames ++ frame.tokens

/-- One more item adds a comma and the tokens of the item. -/
theorem itemTokens_append (items : List Json) (last : Json) :
    itemTokens (items ++ [last]) = itemTokens items ++ .comma :: last.tokens := by
  induction items with
  | nil => simp [itemTokens]
  | cons item items ih => simp [itemTokens, ih]

/-- One more member adds a comma, its name, a colon and the tokens of its value. -/
theorem memberTokens_append (members : List (Option String × Json)) (last : Option String × Json) :
    memberTokens (members ++ [last]) = memberTokens members ++ .comma :: openMember last := by
  induction members with
  | nil => simp [memberTokens, openMember]
  | cons m members ih =>
      obtain ⟨key, value⟩ := m
      simp [memberTokens, ih]

/-- Items with a comma behind each are the items with a comma in front of each but the first. -/
theorem flatMap_items (item : Json) (items : List Json) :
    (item :: items).flatMap (fun item => item.tokens ++ [.comma]) =
      item.tokens ++ itemTokens items ++ [.comma] := by
  induction items generalizing item with
  | nil => simp [itemTokens]
  | cons next items ih =>
      rw [List.flatMap_cons, ih next]
      simp [itemTokens]

/-- Ending each member with a comma is the same as putting commas before all but the first and one
at the end. -/
theorem flatMap_members (m : Option String × Json) (members : List (Option String × Json)) :
    (m :: members).flatMap (fun m => openMember m ++ [.comma]) =
      openMember m ++ memberTokens members ++ [.comma] := by
  induction members generalizing m with
  | nil => simp [memberTokens]
  | cons next members ih =>
      rw [List.flatMap_cons, ih next]
      simp [memberTokens, openMember]

/-- An array is complete behind its last item. -/
theorem tokens_array (before : List Json) (value : Json) :
    (array (value :: before).reverse).tokens =
      (Frame.array before).tokens ++ value.tokens ++ [.endArray] := by
  rw [List.reverse_cons]
  cases hitems : before.reverse with
  | nil => simp [Frame.tokens, hitems, tokens, itemTokens]
  | cons item items =>
      rw [Frame.tokens, hitems, flatMap_items, List.cons_append, tokens, itemTokens_append]
      simp

/-- An object is complete behind its last value. -/
theorem tokens_object (before : List (Option String × Json)) (key : Option String) (value : Json) :
    (object ((key, value) :: before).reverse).tokens =
      (Frame.object before key).tokens ++ value.tokens ++ [.endObject] := by
  rw [List.reverse_cons]
  cases hmembers : before.reverse with
  | nil => simp [Frame.tokens, hmembers, tokens, memberTokens]
  | cons m members =>
      obtain ⟨name, item⟩ := m
      rw [Frame.tokens, hmembers, flatMap_members, List.cons_append, tokens, memberTokens_append]
      simp [openMember]

/-- One more value in an open array adds its tokens and a comma. -/
theorem frameTokens_array_cons (before : List Json) (value : Json) :
    (Frame.array (value :: before)).tokens =
      (Frame.array before).tokens ++ value.tokens ++ [.comma] := by
  simp [Frame.tokens]

/-- One more value in an open object adds its tokens, a comma and the name of the next member. -/
theorem frameTokens_object_cons (before : List (Option String × Json)) (key next : Option String)
    (value : Json) :
    (Frame.object ((key, value) :: before) next).tokens =
      (Frame.object before key).tokens ++ value.tokens ++ [.comma, .string next, .colon] := by
  simp [Frame.tokens, openMember]

/-! ### Reading -/

/-- A token that is a value by itself is the only token of that value. -/
theorem tokens_of_scalar? {t : Token} {json : Json} (h : t.scalar? = some json) :
    json.tokens = [t] := by
  cases t <;> simp [Token.scalar?] at h <;> subst h <;> rfl

mutual

/-- Where a value has to start, it is the first of what is read. -/
theorem tokens_of_readValue {frames : List Frame} {ts : List Token} {json : Json}
    (h : readValue frames ts = some json) : json.tokens = openTokens frames ++ ts := by
  unfold readValue at h
  split at h
  · rw [tokens_of_readAfter h, tokens]
    simp
  · rw [tokens_of_readValue h, openTokens]
    simp [Frame.tokens]
  · rw [tokens_of_readAfter h, tokens]
    simp
  · rw [tokens_of_readValue h, openTokens]
    simp [Frame.tokens]
  · split at h
    · rename_i hscalar
      rw [tokens_of_readAfter h, tokens_of_scalar? hscalar]
      simp
    · simp at h
  · simp at h
termination_by ts.length

/-- Behind a value comes the rest of what holds it. -/
theorem tokens_of_readAfter {frames : List Frame} {value : Json} {ts : List Token} {json : Json}
    (h : readAfter frames value ts = some json) :
    json.tokens = openTokens frames ++ value.tokens ++ ts := by
  unfold readAfter at h
  split at h
  · split at h
    · rename_i hframes
      obtain rfl := Option.some.inj h
      simp [List.isEmpty_iff.mp hframes, openTokens]
    · simp at h
  · split at h
    · rw [tokens_of_readValue h, openTokens, openTokens, frameTokens_array_cons]
      simp
    · rw [tokens_of_readAfter h, openTokens, tokens_array]
      simp
    · split at h
      · rw [tokens_of_readValue h, openTokens, openTokens, frameTokens_object_cons]
        simp
      · simp at h
    · rw [tokens_of_readAfter h, openTokens, tokens_object]
      simp
    · simp at h
termination_by ts.length

end

/-- **A text reads as a value exactly if it has its tokens.** -/
theorem ofText?_eq_some_iff {text : String} {json : Json} :
    ofText? text = some json ↔ tokens? text.toList = some json.tokens := by
  constructor
  · intro h
    obtain ⟨ts, hts, hread⟩ := Option.bind_eq_some_iff.mp h
    rw [hts, tokens_of_readValue hread]
    rfl
  · intro h
    have hread := readValue_tokens [] json []
    rw [List.append_nil] at hread
    rw [ofText?, h, Option.bind_some, hread]
    rfl

end Outreach.Json
