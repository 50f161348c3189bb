import Mathlib
import Outreach.Deal.RecordFile
import Outreach.Proofs.Json.Portable
import Outreach.Proofs.Record.Layers
import Outreach.Proofs.Text.Trimming

/-!
# Records Written in JSON

A record file is read as YAML, whatever it is written in. What stands between the braces of a
portable JSON object are entries between double quotes, and these are texts for YAML too, so the
record has the fields of the object. A pair of escapes is where the two formats part.

## Main results

* `Record.ofFields_strings`: fields that are texts are the record of them.
* `Record.ofText_of_json`: **a portable JSON object of strings is read as its fields**.
* `Record.ofText_escapedPair`: two escapes that pair up to a character are refused.
-/

namespace Outreach.Record

open Json (WrittenObject)

/-! ### Fields -/

/-- A look-up in a list whose values were mapped gives the mapped value. -/
theorem lookup_map_snd {α β : Type} (f : α → β) (l : List (String × α)) (key : String) :
    (l.map fun e => (e.1, f e.2)).lookup key = (l.lookup key).map f := by
  induction l with
  | nil => rfl
  | cons e l ih =>
      rw [List.map_cons, List.lookup_cons, List.lookup_cons]
      cases key == e.1 with
      | true => rfl
      | false => exact ih

/-- Other texts under the same names have the same names. -/
theorem keys_ofList_map (f : String → String) (fields : List (String × String)) :
    (ofList (fields.map fun e => (e.1, f e.2))).keys = (ofList fields).keys := by
  have hvalues : ofList (fields.map fun e => (e.1, f e.2)) =
      (ofList fields).mapValues fun _ text => f text := by
    refine ext_get? fun key => ?_
    rw [get?_ofList, ← List.map_reverse, lookup_map_snd, ← get?_ofList]
    exact (lookup_map_snd f (ofList fields).entries key).symm
  rw [hvalues, keys_mapValues]

/-- If each name of a list gives back its own entry, going through the names gives all the
entries. -/
theorem mapM_fst {f : String → Except Failure (String × String)} {entries : List (String × String)}
    (h : ∀ e ∈ entries, f e.1 = .ok e) : (entries.map Prod.fst).mapM f = .ok entries := by
  induction entries with
  | nil => rfl
  | cons e entries ih =>
      rw [List.map_cons, List.mapM_cons, h e List.mem_cons_self,
        ih fun d hd => h d (List.mem_cons_of_mem e hd)]
      rfl

/-- **Fields that are texts** are the record of them. -/
theorem ofFields_strings (fields : List (String × String)) :
    ofFields (fields.map fun e => (e.1, .string e.2.toList)) = .ok (ofList fields) := by
  have hkeys : (ofList ((fields.map fun e => (e.1, Yaml.Value.string e.2.toList)).map
      fun e => (e.1, ""))).keys = (ofList fields).entries.map Prod.fst := by
    rw [List.map_map]
    exact keys_ofList_map (fun _ => "") fields
  have hread : ∀ e ∈ (ofList fields).entries,
      ((fields.map fun e => (e.1, Yaml.Value.string e.2.toList)).reverse.lookup e.1).bind
        Yaml.Value.plainText? = some e.2 := by
    intro e he
    have hlookup : fields.reverse.lookup e.1 = some e.2 := by
      rw [← get?_ofList]
      exact mem_entries_iff.mp he
    rw [← List.map_reverse, lookup_map_snd fun text : String => Yaml.Value.string text.toList,
      hlookup]
    simp [Yaml.Value.plainText?]
  rw [ofFields, hkeys, mapM_fst fun e he => by rw [hread e he]]
  exact congrArg Except.ok (ofList_entries _)

/-! ### Portable texts -/

/-- The text of a portable object gives its fields, each of them a string. -/
theorem fieldsOfText?_text {o : WrittenObject} (h : o.IsPortable) :
    fieldsOfText? o.text = some (o.fields.map fun e => (e.1, .string e.2.toList)) := by
  obtain ⟨es, hes⟩ : ∃ es, es = o.members.list.map Json.WrittenMember.entry := ⟨_, rfl⟩
  have hdocument : Yaml.Document.ofText? o.text =
      some (Yaml.Document.ofRoot (some (.mapping .empty (es.map Yaml.quotedEntry)))) := by
    have hnumber : Yaml.number? [] (.mapping .empty (es.map Yaml.quotedEntry)) =
        some (.mapping .empty (es.map Yaml.quotedEntry), []) := by
      simp [Yaml.number?, Yaml.Properties.empty, Yaml.AnchorNumbers.declare,
        Yaml.numberEntries?_quoted]
    rw [Yaml.Document.ofText?, WrittenObject.text, String.toList_ofList,
      WrittenObject.tokens?_chars h, ← hes]
    simp [Yaml.rootOf?_flowTokens, hnumber]
  have hfields : o.fields.map (fun e => (e.1, Yaml.Value.string e.2.toList)) =
      (es.map fun e => (e.1, Yaml.Value.string e.2)).map fun e => (String.ofList e.1, e.2) := by
    rw [hes]
    simp [WrittenObject.fields, Json.WrittenMember.field, Json.WrittenMember.entry,
      Function.comp_def]
  rw [fieldsOfText?, hdocument, hfields]
  simp [Yaml.Document.topEntries_quoted]

/-- **A portable JSON object of strings is read as its fields.** Every text of such an object is
written in some way, and the ways that are left out are those that YAML reads otherwise. -/
theorem ofText_of_json {text : String} {fields : List (String × String)}
    (hjson : Json.ofText? text = some (Json.ofFields fields))
    (hportable : ∃ o : WrittenObject, o.text = text ∧ o.IsPortable) :
    ofText text = .ok (ofList fields) := by
  obtain ⟨o, rfl, ho⟩ := hportable
  have hfields : o.fields = fields :=
    Json.ofFields_injective (Option.some.inj (o.ofText?_text.symm.trans hjson))
  have hblank : Text.isBlankText o.text = false :=
    Text.isBlankText_of_mem (c := '\x7b') (by simp [WrittenObject.text, WrittenObject.chars]) rfl
  rw [ofText, hblank, fieldsOfText?_text ho, ← hfields]
  exact ofFields_strings o.fields

/-- An escape that is no half of a pair, in an object with one member. -/
theorem ofText_of_json_escape :
    Json.ofText? "\x7b\"a\": \"b\\u00e9\"\x7d" = some (Json.ofFields [("a", "bé")]) ∧
      ofText "\x7b\"a\": \"b\\u00e9\"\x7d" = .ok (ofList [("a", "bé")]) := by
  have hjson : Json.ofText? "\x7b\"a\": \"b\\u00e9\"\x7d" =
      some (Json.ofFields [("a", "bé")]) := by cbv
  let blank : Json.Blanks := ⟨[], by simp⟩
  let name : Json.WrittenString :=
    ⟨[⟨_, .char 'a', .char (by decide) (by decide) (by decide)⟩], "a", rfl⟩
  let value : Json.WrittenString :=
    ⟨[⟨_, .char 'b', .char (by decide) (by decide) (by decide)⟩,
      ⟨_, .unit 0xE9, .unit (a := '0') (b := '0') (c := 'e') (d := '9') rfl⟩], "bé", rfl⟩
  let space : Json.Blanks := ⟨[' '], by simp [Json.isSpace]⟩
  let object : WrittenObject := ⟨blank, .cons ⟨blank, name, blank, space, value, blank⟩ [], blank⟩
  have hname : name.IsPortable := ⟨by simp [name, Json.WrittenString.inner]; decide, by simp [name]⟩
  have hvalue : value.IsPortable :=
    ⟨by simp [value, Json.WrittenString.inner]; decide, by simp [value]⟩
  refine ⟨hjson, ofText_of_json hjson ⟨object, by decide, ?_, by decide, by decide⟩⟩
  intro m hm
  obtain rfl := List.mem_singleton.mp hm
  exact ⟨hname, hvalue, by simp [blank], by decide⟩

/-- Two escapes that pair up to a character are refused. -/
theorem ofText_escapedPair :
    Json.ofText? "\x7b\"a\": \"\\ud83d\\ude00\"\x7d" = some (Json.ofFields [("a", "😀")]) ∧
      ofText "\x7b\"a\": \"\\ud83d\\ude00\"\x7d" =
        .error (.recordSyntax "the text is not a mapping of plain values") := by
  have hblank : Text.isBlankText "\x7b\"a\": \"\\ud83d\\ude00\"\x7d" = false :=
    Text.isBlankText_of_mem (c := '\x7b') (by decide) rfl
  have hfields : fieldsOfText? "\x7b\"a\": \"\\ud83d\\ude00\"\x7d" = none := by cbv
  refine ⟨by cbv, ?_⟩
  rw [ofText, hblank, hfields]
  rfl

end Outreach.Record
