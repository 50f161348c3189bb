import Outreach.Proofs.Files.AtomicWrite
import Outreach.Proofs.StoreFile.Forms

/-!
# Stores Survive Saving

A store that has been saved is what the next load gives. This composes three facts: the atomic
write leaves exactly its bytes in the file, the text of a value without numbers reads back as that
value, and the form of a store gives that store. The bytes depend on the store alone, so loading and
saving again and again writes the same file each time.

## Main results

* `StoreFile.load_of_save`: a saved value is loaded.
* `LoadsBack.resaved`: what holds after one round of saving and loading holds after many.
* `presets_and_templates_loadBack`: **nothing is lost in a preset file or a template file**.
-/

namespace Outreach

/-- What is read from the bytes of a text is the text. -/
theorem FileTree.readText_of_read {t : FileTree} {here : Option Location} {path text : String}
    (h : t.read here path = .ok text.toUTF8) : t.readText here path = .ok text := by
  have hutf8 : String.fromUTF8? text.toUTF8 = some text := by
    rw [String.toUTF8_eq_toByteArray, String.fromUTF8?, dif_pos text.isValidUTF8]
    rfl
  rw [readText, h]
  simp only [hutf8]

namespace StoreFile

/-- The bytes of a store file: its text in UTF-8. -/
def bytes (json : Json) : ByteArray :=
  (text json).toUTF8

/-- What a store file that reads as a value stands for. -/
theorem load_of_readText {α : Type} {decode : Json → Option α} {w : World} {path text : String}
    {json : Json} {a : α} (hread : w.files.readText w.workingDirectory path = .ok text)
    (hjson : Json.ofText? text = some json) (hdecode : decode json = some a) :
    w.runTask (load decode path) = (.ok (some a), w) := by
  rw [load, World.runTask_bind, World.runTask_request]
  simp only [World.answer, hread, hjson, hdecode]
  rfl

/-- A saved store file holds its bytes. -/
theorem read_of_save {w w' : World} {json : Json} {path : String}
    (h : w.runTask (save json path) = (.ok (), w')) :
    w'.files.read w'.workingDirectory path = .ok (bytes json) :=
  read_of_writeAtomically h

/-- The text of a store file reads as its value, if that is without numbers. -/
theorem ofText?_text {json : Json} (h : json.IsTextual) : Json.ofText? (text json) = some json := by
  refine h.ofText?_toText fun c hc => ?_
  obtain rfl : c = '\n' := List.mem_singleton.mp hc
  rfl

/-- **A saved value is loaded**, if its form is without numbers and gives it back. -/
theorem load_of_save {α : Type} {decode : Json → Option α} {w w' : World} {json : Json}
    {path : String} {a : α} (htextual : json.IsTextual) (hdecode : decode json = some a)
    (h : w.runTask (save json path) = (.ok (), w')) :
    w'.runTask (load decode path) = (.ok (some a), w') := by
  have hread := FileTree.readText_of_read (read_of_save h)
  exact load_of_readText hread (ofText?_text htextual) hdecode

end StoreFile

/-! ### Rounds of loading and saving -/

/-- Load a store and save it, once on each of some days. -/
def resave {α : Type} (load : Date → Task α) (save : α → Task Unit) : List Date → Task Unit
  | [] => pure ()
  | day :: days => do
    save (← load day)
    resave load save days

/-- Stores under a path **load back**: what has been saved is loaded on any day, with no change to
the world; the bytes that are saved depend on the store alone; and what has been loaded and saved
stays the same, with the same bytes in the file, however often it is loaded and saved again. -/
structure LoadsBack {α : Type} (path : String) (bytes : α → ByteArray) (load : Date → Task α)
    (save : α → Task Unit) : Prop where
  /-- What has been saved is loaded. -/
  saved : ∀ (a : α) (w w' : World) (day : Date), w.runTask (save a) = (.ok (), w') →
    w'.runTask (load day) = (.ok a, w')
  /-- What has been saved is in the file, in the same bytes whenever it is saved. -/
  written : ∀ (a : α) (w w' : World), w.runTask (save a) = (.ok (), w') →
    w'.files.read w'.workingDirectory path = .ok (bytes a)
  /-- What has been loaded and saved is loaded after any number of further rounds, and is in the
  file in the same bytes before and after them. -/
  resaved : ∀ (a : α) (w v u w' : World) (day day' : Date) (days : List Date),
    w.runTask (load day) = (.ok a, v) → v.runTask (save a) = (.ok (), u) →
    u.runTask (resave load save days) = (.ok (), w') →
    w'.runTask (load day') = (.ok a, w') ∧
      u.files.read u.workingDirectory path = .ok (bytes a) ∧
      w'.files.read w'.workingDirectory path = .ok (bytes a)

/-- A further round saves what was saved before. -/
theorem runTask_resave {α : Type} {load : Date → Task α} {save : α → Task Unit}
    (hsaved : ∀ (a : α) (w w' : World) (day : Date), w.runTask (save a) = (.ok (), w') →
      w'.runTask (load day) = (.ok a, w')) {a : α} {w u w' : World} {days : List Date}
    (hsave : w.runTask (save a) = (.ok (), u))
    (hresave : u.runTask (resave load save days) = (.ok (), w')) :
    ∃ v : World, v.runTask (save a) = (.ok (), w') := by
  induction days generalizing w u with
  | nil =>
      obtain rfl : u = w' := congrArg Prod.snd hresave
      exact ⟨w, hsave⟩
  | cons day days ih =>
      rw [resave, World.runTask_bind_eq_ok] at hresave
      obtain ⟨b, v, hload, hround⟩ := hresave
      obtain ⟨⟨⟩, u', hsave', hrounds⟩ := World.runTask_bind_eq_ok.mp hround
      rw [hsaved a w u day hsave] at hload
      obtain ⟨hab, rfl⟩ := Prod.mk.inj hload
      obtain rfl : a = b := Except.ok.inj hab
      exact ih hsave' hrounds

/-- Stores load back if they do so once, and if their bytes in the file depend on them alone. -/
theorem LoadsBack.of_saved {α : Type} {path : String} {bytes : α → ByteArray}
    {load : Date → Task α} {save : α → Task Unit}
    (hsaved : ∀ (a : α) (w w' : World) (day : Date), w.runTask (save a) = (.ok (), w') →
      w'.runTask (load day) = (.ok a, w'))
    (hwritten : ∀ (a : α) (w w' : World), w.runTask (save a) = (.ok (), w') →
      w'.files.read w'.workingDirectory path = .ok (bytes a)) :
    LoadsBack path bytes load save where
  saved := hsaved
  written := hwritten
  resaved a w v u w' day day' days hload hsave hresave := by
    obtain ⟨v', hsave'⟩ := runTask_resave hsaved hsave hresave
    exact ⟨hsaved a v' w' day' hsave', hwritten a v u hsave, hwritten a v' w' hsave'⟩

/-- Saving and loading at once gives what is saved, and nothing else, if it can be saved. -/
theorem fst_runTask_save_load_eq_ok_iff {α : Type} {save : Task Unit} {load : Task α} {a b : α}
    {w : World} (hload : ∀ w', w.runTask save = (.ok (), w') → w'.runTask load = (.ok a, w')) :
    (w.runTask (do save; load)).1 = .ok b ↔ (∃ w', w.runTask save = (.ok (), w')) ∧ b = a := by
  have hrun : ∀ w', w.runTask save = (.ok (), w') → w.runTask (do save; load) = (.ok a, w') :=
    fun w' hsave => World.runTask_bind_eq_ok.mpr ⟨(), w', hsave, hload w' hsave⟩
  constructor
  · intro h
    obtain ⟨⟨⟩, w', hsave, -⟩ := World.runTask_bind_eq_ok.mp (Prod.ext h rfl)
    rw [hrun w' hsave] at h
    exact ⟨⟨w', hsave⟩, (Except.ok.inj h).symm⟩
  · rintro ⟨⟨w', hsave⟩, rfl⟩
    rw [hrun w' hsave]

/-! ### Presets and templates -/

/-- Saved presets are loaded. -/
theorem Presets.load_of_save {s : Presets} {w w' : World} {path : String} (day : Date)
    (h : w.runTask (s.save path) = (.ok (), w')) :
    w'.runTask (Presets.load path day) = (.ok s, w') := by
  rw [Presets.load, World.runTask_bind,
    StoreFile.load_of_save s.isTextual_toJson s.ofJson?_toJson h]
  rfl

/-- Saved templates are loaded, with the active id. -/
theorem Templates.load_of_save {s : Templates} {w w' : World} {path : String}
    (h : w.runTask (s.save path) = (.ok (), w')) :
    w'.runTask (Templates.load path) = (.ok s, w') := by
  rw [Templates.load, World.runTask_bind,
    StoreFile.load_of_save s.isTextual_toJson s.ofJson?_toJson h]
  rfl

/-- **Nothing is lost in a preset file or a template file**: what is saved is loaded, and what is
loaded is saved with the same bytes each time. -/
theorem presets_and_templates_loadBack (path : String) :
    LoadsBack path (fun s : Presets => StoreFile.bytes s.toJson)
        (fun day => Presets.load path day) (fun s => s.save path) ∧
      LoadsBack path (fun s : Templates => StoreFile.bytes s.toJson)
        (fun _ => Templates.load path) (fun s => s.save path) := by
  constructor
  · exact .of_saved (fun s w w' day h => s.load_of_save day h)
      (fun s w w' h => StoreFile.read_of_save h)
  · exact .of_saved (fun s w w' _ h => s.load_of_save h)
      (fun s w w' h => StoreFile.read_of_save h)

/-- Presets with one id and odd texts are saved in a directory that is made for them, then loaded
and saved twice; no templates are saved beside them, with an active id. -/
theorem presets_and_templates_loadBack_odd :
    let s : Presets :=
      ⟨[⟨"1", "\"\\\n\u0000", .ofList [("b", "無"), ("a", "\r\n\t/")]⟩, ⟨"1", "", ∅⟩]⟩
    let t : Templates := ⟨"gone", []⟩
    let load (day : Date) : Task Presets := Presets.load "d/p.json" day
    let save (s : Presets) : Task Unit := s.save "d/p.json"
    ∃ w u v x : World, (default : World).runTask (save s) = (.ok (), w) ∧
      w.runTask (load ⟨2026, 1, 1⟩) = (.ok s, w) ∧ w.runTask (save s) = (.ok (), u) ∧
      u.runTask (resave load save [⟨2027, 1, 1⟩]) = (.ok (), v) ∧
      (v.runTask (load ⟨2027, 1, 2⟩) = (.ok s, v) ∧
        u.files.read u.workingDirectory "d/p.json" = .ok (StoreFile.bytes s.toJson) ∧
        v.files.read v.workingDirectory "d/p.json" = .ok (StoreFile.bytes s.toJson)) ∧
      v.runTask (t.save "d/t.json") = (.ok (), x) ∧
      x.runTask (Templates.load "d/t.json") = (.ok t, x) := by
  intro s t load save
  have hback := presets_and_templates_loadBack "d/p.json"
  have hback' := presets_and_templates_loadBack "d/t.json"
  let w := ((default : World).runTask (save s)).2
  let u := (w.runTask (save s)).2
  let v := (u.runTask (save s)).2
  have hw : (default : World).runTask (save s) = (.ok (), w) :=
    World.runTask_of_isOk (by decide +kernel)
  have hu : w.runTask (save s) = (.ok (), u) := World.runTask_of_isOk (by decide +kernel)
  have hv : u.runTask (save s) = (.ok (), v) := World.runTask_of_isOk (by decide +kernel)
  have hx : v.runTask (t.save "d/t.json") = (.ok (), (v.runTask (t.save "d/t.json")).2) :=
    World.runTask_of_isOk (by decide +kernel)
  have hload := hback.1.saved s default w ⟨2026, 1, 1⟩ hw
  have hround : u.runTask (resave load save [⟨2027, 1, 1⟩]) = (.ok (), v) :=
    World.runTask_bind_eq_ok.mpr ⟨s, u, hback.1.saved s w u ⟨2027, 1, 1⟩ hu,
      World.runTask_bind_eq_ok.mpr ⟨(), v, hv, rfl⟩⟩
  exact ⟨w, u, v, _, hw, hload, hu, hround,
    hback.1.resaved s w w u v ⟨2026, 1, 1⟩ ⟨2027, 1, 2⟩ [⟨2027, 1, 1⟩] hload hu hround, hx,
    hback'.2.saved t v _ ⟨2026, 1, 1⟩ hx⟩

end Outreach
