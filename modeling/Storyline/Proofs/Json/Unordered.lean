import Storyline.Proofs.Json.Rearranged

/-!
# Records in any order

A record, and the data beside a tag, are read from the fields that their shape names. They depend
neither on the order of the members nor on those of other names.

* `Decoder.Agrees`: what is read from one draft is read from another one.
* `Shape.Respects`: the fields of a record may be replaced by others that are read alike.
* `Shape.Respects.rearranged`, `Shape.Respects.replaced`: records from rearranged members, and from
  members with other values.
* `Tagged.decode_rearranged`: enumerations with data.
-/

namespace Storyline.Json

theorem map_eq_ok {ε α β : Type} {x : Except ε α} {g : α → β} {b : β} :
    x.map g = .ok b ↔ ∃ a, x = .ok a ∧ g a = b := by
  cases x with
  | error e => simp [Except.map]
  | ok a => simp [Except.map]

/-! ## Records -/

/-- Whether a decoder reads from one draft whatever it reads from another one. -/
def Decoder.Agrees {α : Type} (decode : Decoder α) (mode : Mode) (d d' : Draft) : Prop :=
  ∀ a, decode mode d = .ok a → decode mode d' = .ok a

/-- Whether what a shape reads stays the same if the drafts of its fields are replaced by alike
ones, and nothing but its own fields is looked at. -/
structure Shape.Respects {α : Type} (shape : Shape α) (mode : Mode)
    (alike : String → Draft → Draft → Prop) : Prop where
  check : ∀ name ∈ shape.names, ∀ d d', alike name d d' →
    shape.check name mode d = .ok () → shape.check name mode d' = .ok ()
  build : ∀ (parts : Parts) (find? : String → Option Draft) (a : α), parts.mode = mode →
    (∀ name ∈ shape.names, Option.Rel (alike name) (parts.find? name) (find? name)) →
    shape.build parts = .ok a → shape.build { parts with find? := find? } = .ok a

namespace Shape.Respects

variable {α β : Type} {mode : Mode} {alike : String → Draft → Draft → Prop}

theorem field {name : String} {decode : Decoder α} {whenAbsent whenShort : Option α}
    (agree : ∀ d d', alike name d d' → decode.Agrees mode d d') :
    (Shape.field name decode whenAbsent whenShort).Respects mode alike where
  check := by
    refine List.forall_mem_singleton.2 fun d d' same readable => ?_
    obtain ⟨a, read, -⟩ := map_eq_ok.1 readable
    exact map_eq_ok.2 ⟨a, agree d d' same a read, rfl⟩
  build parts find? a here same built := by
    have found := List.forall_mem_singleton.1 same
    simp only [Shape.field] at built ⊢
    generalize parts.find? name = x, find? name = x' at found built
    cases found with
    | some same =>
      subst here
      exact agree _ _ same a built
    | none => exact built

theorem same {name : String} {decode : Decoder α} {whenAbsent whenShort : Option α} :
    (Shape.field name decode whenAbsent whenShort).Respects mode fun _ => Eq :=
  field fun _ _ same _ read => same ▸ read

theorem map {shape : Shape α} (h : shape.Respects mode alike) (g : α → β) :
    Respects (g <$> shape) mode alike where
  check := h.check
  build parts find? b here same built := by
    obtain ⟨a, read, result⟩ := map_eq_ok.1 built
    exact map_eq_ok.2 ⟨a, h.build parts find? a here same read, result⟩

theorem seq {f : Shape (α → β)} {x : Shape α} (hf : f.Respects mode alike)
    (hx : x.Respects mode alike) : Respects (f <*> x) mode alike where
  check name mem d d' same := by
    show (if name ∈ f.names then f.check name else x.check name) mode d = _ →
      (if name ∈ f.names then f.check name else x.check name) mode d' = _
    by_cases first : name ∈ f.names
    · simp only [if_pos first]
      exact hf.check name first d d' same
    · simp only [if_neg first]
      exact hx.check name ((List.mem_append.1 mem).resolve_left first) d d' same
  build parts find? b here same built := by
    obtain ⟨sameF, sameX⟩ := List.forall_mem_append.1 same
    obtain ⟨g, builtF, rest⟩ := bind_eq_ok.1 built
    obtain ⟨a, builtX, result⟩ := bind_eq_ok.1 rest
    exact bind_eq_ok.2 ⟨g, hf.build parts find? g here sameF builtF,
      bind_eq_ok.2 ⟨a, hx.build parts find? a here sameX builtX, result⟩⟩

end Shape.Respects

namespace Shape

variable {α : Type} {shape : Shape α} {mode : Mode} {ms ms' : List (Option String × Draft)}
  {closed : Bool} {a : α}

theorem ofMembers_eq_ok_iff :
    shape.ofMembers mode ms closed = .ok a ↔
      closed = true ∧
        Sound shape.names (fun name d => shape.check name mode.inside d) Draft.wellFormed ms ∧
        shape.build ⟨mode.inside, member? ms, false, fun name => .data (.missingField name)⟩ =
          .ok a := by
  rw [ofMembers, bind_eq_ok]
  constructor
  · rintro ⟨⟨⟩, checked, built⟩
    obtain ⟨complete, sound, -⟩ := checkMembers_eq_ok_iff.1 checked
    exact ⟨complete, sound, built⟩
  · rintro ⟨complete, sound, built⟩
    exact ⟨(), checkMembers_eq_ok_iff.2 ⟨complete, sound, fun _ _ => List.not_mem_nil⟩, built⟩

theorem Respects.rearranged (h : shape.Respects mode.inside fun _ => Eq)
    (again : Rearranged shape.names Draft.wellFormed ms ms')
    (read : shape.ofMembers mode ms closed = .ok a) : shape.ofMembers mode ms' closed = .ok a := by
  obtain ⟨complete, sound, built⟩ := ofMembers_eq_ok_iff.1 read
  refine ofMembers_eq_ok_iff.2 ⟨complete, sound.rearranged again, ?_⟩
  refine h.build _ (member? ms') a rfl (fun name isKnown => ?_) built
  show Option.Rel Eq (member? ms name) (member? ms' name)
  rw [sound.member?_rearranged again isKnown]
  cases member? ms name with
  | none => exact .none
  | some d => exact .some rfl

theorem Respects.replaced {alike : String → Draft → Draft → Prop}
    (h : shape.Respects mode.inside alike)
    (passed : ∀ name ∉ shape.names, ∀ d d', alike name d d' → d.wellFormed → d'.wellFormed)
    (again : Replaced alike ms ms') (read : shape.ofMembers mode ms closed = .ok a) :
    shape.ofMembers mode ms' closed = .ok a := by
  obtain ⟨complete, sound, built⟩ := ofMembers_eq_ok_iff.1 read
  exact ofMembers_eq_ok_iff.2 ⟨complete, sound.replaced again h.check passed,
    h.build _ (member? ms') a rfl (fun name _ => again.member? name) built⟩

end Shape

/-! ## What is built -/

/-- Whether everything that a shape builds is of some kind. -/
def Shape.Makes {α : Type} (shape : Shape α) (p : α → Prop) : Prop :=
  ∀ parts a, shape.build parts = .ok a → p a

namespace Shape.Makes

variable {α β : Type} {p : β → Prop}

theorem map {shape : Shape α} {g : α → β} (all : ∀ a, p (g a)) : Makes (g <$> shape) p := by
  intro parts b built
  obtain ⟨a, -, rfl⟩ := map_eq_ok.1 built
  exact all a

theorem seq {f : Shape (α → β)} {x : Shape α} (h : f.Makes fun g => ∀ a, p (g a)) :
    Makes (f <*> x) p := by
  intro parts b built
  obtain ⟨g, builtF, rest⟩ := bind_eq_ok.1 built
  obtain ⟨a, -, result⟩ := bind_eq_ok.1 rest
  obtain rfl := Except.ok.inj result
  exact h parts g builtF a

end Shape.Makes

/-! ## Lists -/

theorem Decoder.list_agrees {α : Type} {decode : Decoder α} {mode : Mode} {ds ds' : List Draft}
    {closed : Bool} (elements : List.Forall₂ (decode.Agrees mode.inside) ds ds') :
    (Decoder.list decode).Agrees mode (.array ds closed) (.array ds' closed) := by
  have values : ∀ as, ds.mapM (decode mode.inside) = .ok as →
      ds'.mapM (decode mode.inside) = .ok as := by
    induction elements with
    | nil => exact fun _ read => read
    | cons first _ ih =>
      intro as read
      rw [List.mapM_cons] at read ⊢
      obtain ⟨a, readFirst, rest⟩ := bind_eq_ok.1 read
      obtain ⟨as, readRest, result⟩ := bind_eq_ok.1 rest
      exact bind_eq_ok.2 ⟨a, first a readFirst, bind_eq_ok.2 ⟨as, ih as readRest, result⟩⟩
  intro as read
  obtain ⟨as, readAll, result⟩ := bind_eq_ok.1 read
  exact bind_eq_ok.2 ⟨as, values as readAll, result⟩

/-! ## One member apart from the others -/

section Apart

variable {name : String} {check : Draft → Except Fault Unit} {room : Nat}
  {ms ms' : List (Option String × Draft)} {closed : Bool}

theorem checkApart_rearranged (again : Rearranged [name] (Draft.storable room) ms ms')
    (checked : checkApart name check room false ms closed = .ok ()) :
    checkApart name check room false ms' closed = .ok () ∧
      Shape.member? ms' name = Shape.member? ms name := by
  obtain ⟨complete, sound, new⟩ := checkApart_eq_ok_iff.1 checked
  exact ⟨checkApart_eq_ok_iff.2 ⟨complete, sound.rearranged again, nofun⟩,
    sound.member?_rearranged again (List.mem_singleton_self name)⟩

end Apart

/-- Whether the data of a case do not depend on the order of the members beside its tag, nor on
members of other names than `taken`. -/
inductive Body.Unordered {α : Type} (taken : List String) : Body α → Prop where
  | unit (a : α) : Unordered taken (.unit a)
  | record {shape : Shape α} (respects : shape.Respects .stored fun _ => Eq)
      (fields : shape.names ⊆ taken) : Unordered taken (.record shape)

theorem Body.Unordered.rearranged {α : Type} {taken : List String} {c : Case α}
    (h : c.body.Unordered taken) {ms ms' : List (Option String × Draft)} {a : α}
    (again : Rearranged taken Draft.wellFormed ms ms')
    (read : Tagged.bodyOfMembers c ms = .ok a) : Tagged.bodyOfMembers c ms' = .ok a := by
  -- The body is the index of `h`, so it has to be a variable of its own.
  obtain ⟨tag, label, body⟩ := c
  cases h with
  | unit => exact read
  | record respects fields =>
    exact Shape.Respects.rearranged respects (again.mono fields fun _ fits => fits) read

theorem Decoder.mem_of_caseNamed {α : Type} {cases : List (String × α)} {name : String} {a : α}
    (read : caseNamed cases name = .ok a) : (name, a) ∈ cases := by
  cases found : cases.lookup name with
  | none => simp [caseNamed, found] at read
  | some a' =>
    obtain rfl : a' = a := by simpa [caseNamed, found] using read
    obtain ⟨before, after, rfl, -⟩ := List.lookup_eq_some_iff.1 found
    exact List.mem_append_right _ List.mem_cons_self

theorem Decoder.mem_of_tag {α : Type} {cases : List (String × α)} {mode : Mode} {d : Draft} {a : α}
    (read : tag cases mode d = .ok a) : ∃ name, (name, a) ∈ cases := by
  unfold tag at read
  split at read
  · exact ⟨_, mem_of_caseNamed read⟩
  · split at read
    · contradiction
    · split at read
      · rename_i name a' found
        obtain rfl := Except.ok.inj read
        exact ⟨name, List.mem_of_getElem? found⟩
      · contradiction
  · contradiction

theorem Tagged.decode_rearranged {α : Type} {t : Tagged α} {mode : Mode} {taken : List String}
    {ms ms' : List (Option String × Draft)} {closed : Bool} {a : α}
    (read : t.decode mode (.object ms closed) = .ok a)
    (apart : t.member ∈ taken)
    (again : Rearranged taken (Draft.storable mode.inside.room) ms ms')
    (unordered : ∀ c ∈ t.cases, ∀ ms, bodyOfMembers c ms = .ok a → c.body.Unordered taken) :
    t.decode mode (.object ms' closed) = .ok a := by
  obtain ⟨⟨⟩, checked, rest⟩ := bind_eq_ok.1 read
  have beside := again.mono (List.cons_subset.2 ⟨apart, List.nil_subset _⟩) fun _ fits => fits
  obtain ⟨checked', same⟩ := checkApart_rearranged beside checked
  refine bind_eq_ok.2 ⟨(), checked', ?_⟩
  simp only [same]
  cases found : Shape.member? ms t.member with
  | none => simp [found] at rest
  | some d =>
    simp only [found] at rest
    obtain ⟨c, named, body⟩ := bind_eq_ok.1 rest
    obtain ⟨tag, tagged⟩ := Decoder.mem_of_tag named
    obtain ⟨c', mem, pair⟩ := List.mem_map.1 tagged
    obtain rfl : c' = c := congrArg Prod.snd pair
    have others := (again.membersBut t.member).mono (List.Subset.refl taken)
      Draft.wellFormed_of_storable
    exact bind_eq_ok.2 ⟨c', named, (unordered c' mem _ body).rearranged others body⟩

end Storyline.Json
