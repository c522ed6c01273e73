import Storyline.Json.Tagged
import Storyline.Proofs.Json.Reading

/-!
# Decoding what was encoded

A decoder recovers what a value stands for if it succeeds on the draft of that value, read straight
from the text or from a stored copy. Records recover what their fields recover.

* `Decoder.Recovers`: a decoder, a value, and what the value stands for.
* `Shape.Recovers`: the same for the fields of a record, one after the other.
* `Tagged.recovers`, `Paired.recovers`: an enumeration recovers what the data beside its tag
  recover.
* `Decoder.Recovers.readsBack`: what is recovered from a value is decoded from its text.
-/

namespace Storyline.Json

theorem Mode.room_inside {mode : Mode} {room : Nat} (enough : room + 1 ≤ mode.room) :
    room ≤ mode.inside.room := by
  cases mode with
  | direct depth =>
    simp only [Mode.room, Mode.inside] at enough ⊢
    omega
  | stored => exact Nat.le_of_succ_le enough

theorem Mode.room_le (mode : Mode) : mode.room ≤ 127 := by
  cases mode with
  | direct depth => exact Nat.sub_le 127 depth
  | stored => exact Nat.le_refl _

namespace Draft

theorem ofElements_eq_map (vs : List Value) : ofElements vs = vs.map ofValue := by
  induction vs with
  | nil => rfl
  | cons v vs ih => rw [ofElements, ih, List.map_cons]

theorem ofMembers_eq_map (ms : List (String × Value)) :
    ofMembers ms = ms.map fun m => (some m.1, ofValue m.2) := by
  induction ms with
  | nil => rfl
  | cons m ms ih => rw [ofMembers, ih, List.map_cons]

theorem storableElements_iff {room : Nat} {ds : List Draft} :
    storableElements room ds ↔ ∀ d ∈ ds, d.storable room := by
  induction ds with
  | nil => simp [storableElements]
  | cons d ds ih => simp [storableElements, ih]

theorem storableMembers_iff {room : Nat} {ms : List (Option String × Draft)} :
    storableMembers room ms ↔ ∀ m ∈ ms, m.1.isSome ∧ m.2.storable room := by
  induction ms with
  | nil => simp [storableMembers]
  | cons m ms ih => simp [storableMembers, ih]

theorem storable_ofValue {room wider : Nat} {v : Value} (within : v.Within room)
    (enough : room ≤ wider) : (ofValue v).storable wider := by
  induction within generalizing wider with
  | null => rfl
  | bool => rfl
  | number => rfl
  | string => rfl
  | @array room vs _ ih =>
    have elements : storableElements (wider - 1) (ofElements vs) := by
      simp only [storableElements_iff, ofElements_eq_map, List.forall_mem_map]
      exact fun v mem => ih v mem (Nat.le_sub_one_of_lt enough)
    simp [ofValue, storable, elements, Nat.zero_lt_of_lt enough]
  | @object room ms _ ih =>
    have members : storableMembers (wider - 1) (ofMembers ms) := by
      simp only [storableMembers_iff, ofMembers_eq_map, List.forall_mem_map]
      exact fun m mem => ⟨rfl, ih m mem (Nat.le_sub_one_of_lt enough)⟩
    simp [ofValue, storable, members, Nat.zero_lt_of_lt enough]

end Draft

/-! ## Decoders -/

namespace Decoder

/-- Whether a decoder takes a value, wherever it stands with so much room, for what it is. -/
structure Recovers {α : Type} (decode : Decoder α) (room : Nat) (v : Value) (a : α) : Prop where
  within : v.Within room
  ok : ∀ mode : Mode, room ≤ mode.room → decode mode (.ofValue v) = .ok a

variable {α : Type} {decode : Decoder α} {room : Nat} {v : Value} {a : α}

theorem recovers_text (room : Nat) (s : String) : Recovers text room (.string s) s :=
  ⟨.string s, fun _ _ => rfl⟩

theorem recovers_path (room : Nat) (s : String) : Recovers path room (.string s) s :=
  ⟨.string s, fun _ _ => rfl⟩

theorem recovers_boolean (room : Nat) (b : Bool) : Recovers boolean room (.bool b) b :=
  ⟨.bool b, fun _ _ => rfl⟩

theorem recovers_integer {range : String} {least greatest n : Int} (h : least ≤ n)
    (h' : n ≤ greatest) (below : -0x8000000000000000 ≤ least)
    (above : greatest ≤ 0xFFFFFFFFFFFFFFFF) (room : Nat) :
    Recovers (integer range least greatest) room (.number n) n where
  within := .number (Int.le_trans below h) (Int.le_trans h' above)
  ok mode _ := by
    show integer range least greatest mode (.number (.whole n)) = .ok n
    rw [integer, if_pos ⟨h, h'⟩]

theorem Recovers.map {β : Type} (h : Recovers decode room v a) (f : α → β) :
    Recovers (fun mode d => (decode mode d).map f) room v (f a) where
  within := h.within
  ok mode enough := by simp only [h.ok mode enough, Except.map]

theorem recovers_word32 (room : Nat) (n : UInt32) : Recovers word32 room (.number n.toNat) n := by
  have bound := n.toNat_lt
  have word : Recovers word32 room (.number n.toNat) (UInt32.ofNat (n.toNat : Int).toNat) :=
    (recovers_integer (by omega) (by omega) (by decide) (by decide) room).map _
  simpa using word

theorem recovers_word64 (room : Nat) (n : UInt64) : Recovers word64 room (.number n.toNat) n := by
  have bound := n.toNat_lt
  have word : Recovers word64 room (.number n.toNat) (UInt64.ofNat (n.toNat : Int).toNat) :=
    (recovers_integer (by omega) (by omega) (by decide) (by decide) room).map _
  simpa using word

theorem recovers_count {n : Nat} (bound : n < UInt64.size) (room : Nat) :
    Recovers count room (.number n) n := by
  have bound : n < 18446744073709551616 := bound
  exact (recovers_integer (by omega) (by omega) (by decide) (by decide) room).map Int.toNat

theorem recovers_signed64 (room : Nat) (n : Int64) :
    Recovers signed64 room (.number n.toInt) n := by
  have least := n.le_toInt
  have greatest := n.toInt_lt
  have word : Recovers signed64 room (.number n.toInt) (Int64.ofInt n.toInt) :=
    (recovers_integer (by omega) (by omega) (by decide) (by decide) room).map _
  simpa using word

theorem recovers_enumeration {cases : List (String × α)} {name : String}
    (named : cases.lookup name = some a) (room : Nat) :
    Recovers (enumeration cases) room (.string name) a := by
  refine ⟨.string name, fun mode _ => ?_⟩
  cases mode <;> simp [Draft.ofValue, enumeration, caseOf, storedCaseOf, caseNamed, named]

theorem recovers_null (decode : Decoder α) (room : Nat) :
    Recovers (nullable decode) room .null none :=
  ⟨.null, fun _ _ => rfl⟩

theorem Recovers.present (h : Recovers decode room v a) (present : v ≠ .null) :
    Recovers (nullable decode) room v (some a) := by
  refine ⟨h.within, fun mode enough => ?_⟩
  have ok := h.ok mode enough
  rw [nullable]
  · rw [ok]
    rfl
  · intro same
    cases v with
    | null => exact present rfl
    | _ => contradiction

theorem mapM_ok {f : Draft → Except Fault α} {encode : α → Value} {xs : List α}
    (ok : ∀ x ∈ xs, f (.ofValue (encode x)) = .ok x) :
    (Draft.ofElements (xs.map encode)).mapM f = .ok xs := by
  induction xs with
  | nil => rfl
  | cons x xs ih =>
    obtain ⟨first, others⟩ := List.forall_mem_cons.1 ok
    rw [List.map_cons, Draft.ofElements, List.mapM_cons, first, ih others]
    rfl

theorem recovers_list {encode : α → Value} {xs : List α}
    (elements : ∀ x ∈ xs, Recovers decode room (encode x) x) :
    Recovers (list decode) (room + 1) (.array (xs.map encode)) xs := by
  constructor
  · exact .array (List.forall_mem_map.2 fun x mem => (elements x mem).within)
  · intro mode enough
    have values := mapM_ok fun x mem => (elements x mem).ok mode.inside (Mode.room_inside enough)
    rw [Draft.ofValue, list, values]
    rfl

/-- Whether the text of a value, in either layout, is decoded as what the value stands for. -/
structure ReadsBack {α : Type} (decode : Decoder α) (v : Value) (a : α) : Prop where
  compact : decodeText decode v.text = .ok a
  indented : decodeText decode v.indented = .ok a

theorem Recovers.decodeText (h : Recovers decode room v a) (enough : room ≤ 127) {text : String}
    (parsed : Draft.parse text.toList = (.ofValue v, false)) : decodeText decode text = .ok a := by
  have decoded : decode (.direct 0) (.ofValue v) = .ok a := h.ok (.direct 0) enough
  rw [Json.decodeText, parsed]
  simp only [decoded]
  rfl

theorem Recovers.readsBack (h : Recovers decode room v a) (enough : room ≤ 127) :
    ReadsBack decode v a where
  compact := h.decodeText enough
    (by rw [Value.text, String.toList_ofList, Draft.parse_write h.within])
  indented := h.decodeText enough
    (by rw [Value.indented, String.toList_ofList, Draft.parse_writeIndented h.within])

end Decoder

/-! ## Records -/

namespace Shape

/-- Whether a shape, if its fields have different names, takes some members, one for each field in
their order, for what they say. -/
structure Recovers {α : Type} (shape : Shape α) (room : Nat) (members : List (String × Value))
    (a : α) : Prop where
  names : shape.names = members.map Prod.fst
  within : ∀ m ∈ members, m.2.Within room
  check : shape.names.Nodup → ∀ m ∈ members, ∀ mode : Mode, room ≤ mode.room →
    shape.check m.1 mode (.ofValue m.2) = .ok ()
  build : ∀ parts : Parts, room ≤ parts.mode.room →
    (∀ m ∈ members, parts.find? m.1 = some (.ofValue m.2)) → shape.build parts = .ok a

namespace Recovers

variable {α β : Type} {room : Nat}

theorem field {decode : Decoder α} {v : Value} {a : α} (h : decode.Recovers room v a)
    {name : String} {whenAbsent whenShort : Option α} :
    Recovers (Shape.field name decode whenAbsent whenShort) room [(name, v)] a where
  names := rfl
  within := List.forall_mem_singleton.2 h.within
  check _ := by
    refine List.forall_mem_singleton.2 fun mode enough => ?_
    show (decode mode (.ofValue v)).map _ = _
    rw [h.ok mode enough]
    rfl
  build parts enough found := by
    have here := List.forall_mem_singleton.1 found
    simp only [Shape.field, here, h.ok parts.mode enough]

theorem map {shape : Shape α} {ms : List (String × Value)} {a : α} (h : shape.Recovers room ms a)
    (g : α → β) : Recovers (g <$> shape) room ms (g a) where
  names := h.names
  within := h.within
  check := h.check
  build parts enough found := by
    show (shape.build parts).map g = _
    rw [h.build parts enough found]
    rfl

theorem seq {f : Shape (α → β)} {x : Shape α} {ms ms' : List (String × Value)} {g : α → β} {a : α}
    (hf : f.Recovers room ms g) (hx : x.Recovers room ms' a) :
    Recovers (f <*> x) room (ms ++ ms') (g a) where
  names := by
    show f.names ++ x.names = _
    rw [hf.names, hx.names, List.map_append]
  within := List.forall_mem_append.2 ⟨hf.within, hx.within⟩
  check distinct := by
    -- A check goes by the name, so it meets the right field only if the names are apart.
    obtain ⟨distinctF, distinctX, apart⟩ := List.nodup_append.1 distinct
    refine List.forall_mem_append.2 ⟨fun m mem mode enough => ?_, fun m mem mode enough => ?_⟩
    · have here : m.1 ∈ f.names := hf.names ▸ List.mem_map_of_mem mem
      show (if m.1 ∈ f.names then f.check m.1 else x.check m.1) mode _ = _
      rw [if_pos here]
      exact hf.check distinctF m mem mode enough
    · have there : m.1 ∈ x.names := hx.names ▸ List.mem_map_of_mem mem
      have here : m.1 ∉ f.names := fun here => apart m.1 here m.1 there rfl
      show (if m.1 ∈ f.names then f.check m.1 else x.check m.1) mode _ = _
      rw [if_neg here]
      exact hx.check distinctX m mem mode enough
  build parts enough found := by
    obtain ⟨foundF, foundX⟩ := List.forall_mem_append.1 found
    show (f.build parts >>= fun g => x.build parts >>= fun a => Except.ok (g a)) = _
    rw [hf.build parts enough foundF, hx.build parts enough foundX]
    rfl

end Recovers

theorem checkMembers_ok {known seen : List String} {check : String → Draft → Except Fault Unit}
    {ms : List (String × Value)} (distinct : (ms.map Prod.fst).Nodup)
    (fresh : ∀ m ∈ ms, m.1 ∉ seen)
    (ok : ∀ m ∈ ms, m.1 ∈ known ∧ check m.1 (.ofValue m.2) = .ok ()) :
    checkMembers known check seen (Draft.ofMembers ms) true = .ok () := by
  induction ms generalizing seen with
  | nil => rfl
  | cons m ms ih =>
    obtain ⟨others, distinct⟩ := List.nodup_cons.1 distinct
    obtain ⟨notSeen, fresh⟩ := List.forall_mem_cons.1 fresh
    obtain ⟨⟨isKnown, checked⟩, ok⟩ := List.forall_mem_cons.1 ok
    have freshAfter : ∀ m' ∈ ms, m'.1 ∉ m.1 :: seen := by
      intro m' mem
      have other : m'.1 ≠ m.1 := fun same => others (same ▸ List.mem_map_of_mem mem)
      exact List.not_mem_cons_of_ne_of_not_mem other (fresh m' mem)
    rw [Draft.ofMembers, checkMembers, if_pos isKnown, if_neg notSeen, checked]
    exact ih distinct freshAfter ok

theorem member?_of_mem {ms : List (String × Value)} (distinct : (ms.map Prod.fst).Nodup)
    {m : String × Value} (mem : m ∈ ms) :
    member? (Draft.ofMembers ms) m.1 = some (.ofValue m.2) := by
  induction ms with
  | nil => contradiction
  | cons first ms ih =>
    obtain ⟨others, distinct⟩ := List.nodup_cons.1 distinct
    rcases List.mem_cons.1 mem with rfl | mem
    · simp [member?, Draft.ofMembers]
    · have other : m.1 ≠ first.1 := fun same => others (same ▸ List.mem_map_of_mem mem)
      have rest := ih distinct mem
      simpa [member?, Draft.ofMembers, List.lookup_cons, beq_false_of_ne other] using rest

namespace Recovers

variable {α : Type} {shape : Shape α} {room : Nat} {ms : List (String × Value)} {a : α}

theorem ofMembers (h : shape.Recovers room ms a) (distinct : shape.names.Nodup) (mode : Mode)
    (enough : room ≤ mode.inside.room) :
    shape.ofMembers mode (Draft.ofMembers ms) true = .ok a := by
  have different : (ms.map Prod.fst).Nodup := h.names ▸ distinct
  have checked : checkMembers shape.names (fun name d => shape.check name mode.inside d) []
      (Draft.ofMembers ms) true = .ok () :=
    checkMembers_ok different (fun _ _ => List.not_mem_nil) fun m mem =>
      ⟨h.names ▸ List.mem_map_of_mem mem, h.check distinct m mem mode.inside enough⟩
  rw [Shape.ofMembers, checked]
  exact h.build _ enough fun m mem => member?_of_mem different mem

theorem record (h : shape.Recovers room ms a) (distinct : shape.names.Nodup) (name : String) :
    Decoder.Recovers (shape.record name) (room + 1) (.object ms) a :=
  ⟨.object h.within, fun mode enough => h.ofMembers distinct mode (Mode.room_inside enough)⟩

end Recovers

end Shape

/-! ## Enumerations with data -/

section Apart

variable {name : String} {v : Value} {ms : List (String × Value)}

theorem checkApart_ok {check : Draft → Except Fault Unit} {room wider : Nat}
    (checked : check (.ofValue v) = .ok ()) (apart : ∀ m ∈ ms, m.1 ≠ name)
    (within : ∀ m ∈ ms, m.2.Within room) (enough : room ≤ wider) :
    checkApart name check wider false (Draft.ofMembers ((name, v) :: ms)) true = .ok () := by
  have others : checkApart name check wider true (Draft.ofMembers ms) true = .ok () := by
    clear checked
    induction ms with
    | nil => rfl
    | cons m ms ih =>
      obtain ⟨other, apart⟩ := List.forall_mem_cons.1 apart
      obtain ⟨first, within⟩ := List.forall_mem_cons.1 within
      rw [Draft.ofMembers, checkApart, if_neg other, if_pos (Draft.storable_ofValue first enough)]
      exact ih apart within
  rw [Draft.ofMembers, checkApart, if_pos rfl, checked]
  exact others

theorem member?_first :
    Shape.member? (Draft.ofMembers ((name, v) :: ms)) name = some (.ofValue v) := by
  simp [Shape.member?, Draft.ofMembers]

theorem membersBut_ofMembers (apart : ∀ m ∈ ms, m.1 ≠ name) :
    membersBut name (Draft.ofMembers ((name, v) :: ms)) = Draft.ofMembers ms := by
  have others : ∀ m ∈ Draft.ofMembers ms, (m.1 != some name) = true := by
    rw [Draft.ofMembers_eq_map]
    exact List.forall_mem_map.2 fun m mem => by simpa using apart m mem
  rw [membersBut, Draft.ofMembers, List.filter_cons_of_neg (by simp), List.filter_eq_self.2 others]

end Apart

/-- Whether the data of a case are taken, as the members beside its tag, for what they say. -/
inductive Body.Recovers {α : Type} (room : Nat) : Body α → List (String × Value) → α → Prop where
  | unit (a : α) : Recovers room (.unit a) [] a
  | record {shape : Shape α} {ms : List (String × Value)} {a : α}
      (fields : shape.Recovers room ms a) (distinct : shape.names.Nodup) :
      Recovers room (.record shape) ms a
  | inner {decode : Decoder α} {ms : List (String × Value)} {a : α}
      (value : decode.Recovers (room + 1) (.object ms) a) : Recovers room (.inner decode) ms a

namespace Body.Recovers

variable {α : Type} {room : Nat} {body : Body α} {ms : List (String × Value)} {a : α}

theorem within (h : body.Recovers room ms a) : ∀ m ∈ ms, m.2.Within room := by
  cases h with
  | unit => exact List.forall_mem_nil _
  | record fields => exact fields.within
  | inner value =>
    cases value.within with
    | object members => exact members

theorem ofMembers {c : Case α} (h : c.body.Recovers room ms a) (enough : room + 1 ≤ 127) :
    Tagged.bodyOfMembers c (Draft.ofMembers ms) = .ok a := by
  -- The body is the index of `h`, so it has to be a variable of its own.
  obtain ⟨tag, label, body⟩ := c
  cases h with
  | unit => rfl
  | record fields distinct =>
    exact fields.ofMembers distinct .stored (Nat.le_of_succ_le enough)
  | inner value => exact value.ok .stored enough

end Body.Recovers

namespace Tagged

variable {α : Type} {t : Tagged α} {room : Nat} {tag : String} {ms : List (String × Value)} {a : α}

theorem recovers {c : Case α}
    (named : (t.cases.map fun c => (c.tag, c)).lookup tag = some c)
    (apart : ∀ m ∈ ms, m.1 ≠ t.member) (body : c.body.Recovers room ms a) :
    Decoder.Recovers t.decode (room + 1) (.object ((t.member, .string tag) :: ms)) a := by
  refine ⟨.object (List.forall_mem_cons.2 ⟨.string _, body.within⟩), fun mode enough => ?_⟩
  have tagged : t.caseOf mode.inside (.ofValue (.string tag)) = .ok c := by
    show Decoder.caseNamed _ tag = _
    rw [Decoder.caseNamed, named]
  have checked : checkApart t.member (fun d => (t.caseOf mode.inside d).map fun _ => ())
      mode.inside.room false (Draft.ofMembers ((t.member, .string tag) :: ms)) true = .ok () :=
    checkApart_ok (by rw [tagged]; rfl) apart body.within (Mode.room_inside enough)
  rw [Draft.ofValue, decode, checked]
  simp only [member?_first, tagged, membersBut_ofMembers apart]
  exact body.ofMembers (Nat.le_trans enough mode.room_le)

theorem recovers_record {tag' label : String} {shape : Shape α}
    (named : (t.cases.map fun c => (c.tag, c)).lookup tag = some ⟨tag', label, .record shape⟩)
    (distinct : (t.member :: shape.names).Nodup) (fields : shape.Recovers room ms a) :
    Decoder.Recovers t.decode (room + 1) (.object ((t.member, .string tag) :: ms)) a := by
  obtain ⟨apart, distinct⟩ := List.nodup_cons.1 distinct
  refine recovers named (fun m mem same => apart ?_) (.record fields distinct)
  rw [← same, fields.names]
  exact List.mem_map_of_mem mem

end Tagged

/-! ## Tags and data in two members -/

namespace Paired

variable {α β : Type} {p : Paired α β}

theorem next?_tag (d : Draft) (rest : List (Option String × Draft)) :
    p.next? true ((some p.tag, d) :: rest) = .ok (some (true, d, rest)) := by
  rw [next?, if_pos rfl]

theorem next?_content (apart : p.content ≠ p.tag) (d : Draft)
    (rest : List (Option String × Draft)) :
    p.next? true ((some p.content, d) :: rest) = .ok (some (false, d, rest)) := by
  rw [next?, if_neg apart, if_pos rfl]

theorem recovers {room : Nat} {tag : String} {make : β → α} {v : Value} {b : β}
    (named : p.cases.lookup tag = some make) (apart : p.content ≠ p.tag)
    (data : p.data.Recovers room v b) :
    Decoder.Recovers p.decode (room + 1) (.object [(p.tag, .string tag), (p.content, v)])
      (make b) := by
  have members : ∀ m ∈ [(p.tag, .string tag), (p.content, v)], m.2.Within room :=
    List.forall_mem_cons.2 ⟨.string tag, List.forall_mem_singleton.2 data.within⟩
  refine ⟨.object members, fun mode enough => ?_⟩
  have inside := Mode.room_inside enough
  have tagged := (Decoder.recovers_enumeration named room).ok mode.inside inside
  have content := data.ok mode.inside inside
  have last : p.checkRest true [] = .ok () := rfl
  show p.ofMembers mode.inside (Draft.ofMembers _) true = _
  simp only [Draft.ofMembers, ofMembers, next?_tag, next?_content apart, bind, Except.bind, tagged,
    content, last]

end Paired

end Storyline.Json
