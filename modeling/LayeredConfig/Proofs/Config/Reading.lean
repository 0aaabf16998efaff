import LayeredConfig.Proofs.Config.Reachable
import LayeredConfig.Proofs.Config.Secrets

/-!
# Reading parts, and reading lists

What is read at a path depends on the node there and on the parsers. The path itself only gets into the
errors (`read_place`). So reads compose (`reads_compose`): in a part of a configuration a path reads like
the whole path in the configuration, and a list reads like its elements one by one.
-/

namespace LayeredConfig

namespace Registry

variable {registry : Registry} {t : ReadType} {place : Path} {n : Node} {xs : List Node} {i j : Nat}
  {vs : List t.Carrier} {e : Error}

/-! ## Places -/

theorem parse_place (registry : Registry) (place other : Path) (t : ReadType) (text : String) :
    SameOutcome Error.SameKind Eq (registry.parse place t text) (registry.parse other t text) := by
  rw [Registry.parse, Registry.parse]
  cases registry.find? (·.appliesTo t text) with
  | none => exact .error rfl
  | some parser =>
    dsimp only
    cases parser.parse text with
    | error cause => exact .error rfl
    | ok reading =>
      dsimp only
      cases reading.as? t with
      | none => exact .error rfl
      | some v => exact .ok rfl

theorem readScalar_place (registry : Registry) (place other : Path) (t : ReadType) (s : Scalar) :
    SameOutcome Error.SameKind Eq (registry.readScalar place t s) (registry.readScalar other t s) := by
  unfold readScalar
  cases t.ofScalar? s with
  | some v => exact .ok rfl
  | none =>
    match s with
    | .literal (.string text) => exact registry.parse_place place other t text
    | .literal (.bool _) | .literal (.integer _) | .literal (.float _) | .expression _ =>
      exact .error rfl

/-- A node reads the same wherever it stands, but for the path in the error. -/
theorem read_place (registry : Registry) (place other : Path) (t : ReadType) (n : Node) :
    SameOutcome Error.SameKind Eq (registry.read place t n) (registry.read other t n) := by
  cases n with
  | leaf s => exact registry.readScalar_place place other t s
  | map es =>
    unfold read
    dsimp only
    cases t.ofContainer? (.map es) with
    | some v => exact .ok rfl
    | none => exact .error rfl
  | list xs =>
    unfold read
    dsimp only
    cases t.ofContainer? (.list xs) with
    | some v => exact .ok rfl
    | none => exact .error rfl

theorem readElements_place (registry : Registry) (place other : Path) (t : ReadType) (i : Nat)
    (xs : List Node) : SameOutcome Error.SameKind Eq (registry.readElements place t i xs)
      (registry.readElements other t i xs) := by
  induction xs generalizing i with
  | nil => exact .ok rfl
  | cons n rest ih =>
    rw [readElements, readElements]
    refine (registry.read_place _ _ t n).bind fun v _ first => ?_
    cases first
    exact (ih (i + 1)).bind_pure fun _ _ later => congrArg (v :: ·) later

theorem readList_place (registry : Registry) (place other : Path) (t : ReadType) (n : Node) :
    SameOutcome Error.SameKind Eq (registry.readList place t n) (registry.readList other t n) := by
  cases n with
  | list xs => exact registry.readElements_place place other t 0 xs
  | leaf s => exact .error rfl
  | map es => exact .error rfl

/-! ## Elements -/

/-- The elements are read exactly if each is, and what is read of them stands at the same positions. -/
theorem readElements_eq_ok_iff : registry.readElements place t i xs = .ok vs ↔
    vs.length = xs.length ∧ ∀ j n v, xs[j]? = some n → vs[j]? = some v →
      registry.read (place.index (i + j)) t n = .ok v := by
  induction xs generalizing i vs with
  | nil =>
    rw [readElements]
    constructor
    · rintro ⟨⟩
      exact ⟨rfl, nofun⟩
    · rintro ⟨length, -⟩
      cases List.length_eq_zero_iff.mp length
      rfl
  | cons x rest ih =>
    rw [readElements, bind_eq_ok]
    constructor
    · rintro ⟨v, here, rest⟩
      obtain ⟨more, later, same⟩ := bind_eq_ok.mp rest
      cases pure_eq_ok.mp same
      obtain ⟨length, each⟩ := ih.mp later
      refine ⟨congrArg Nat.succ length, fun j n v' found found' => ?_⟩
      cases j with
      | zero =>
        cases found
        cases found'
        exact here
      | succ j =>
        rw [← Nat.add_assoc, Nat.add_right_comm]
        exact each j n v' found found'
    · rintro ⟨length, each⟩
      match vs, length with
      | v :: more, length =>
        refine ⟨v, each 0 x v rfl rfl, bind_eq_ok.mpr ⟨more, ih.mpr ⟨Nat.succ.inj length, ?_⟩, rfl⟩⟩
        intro j n v' found found'
        have later := each (j + 1) n v' found found'
        rwa [← Nat.add_assoc, Nat.add_right_comm] at later

/-- If elements are not read, it is because of the first that is not. -/
theorem readElements_eq_error (found : xs[j]? = some n)
    (failed : registry.read (place.index (i + j)) t n = .error e)
    (before : ∀ k n, k < j → xs[k]? = some n → ∃ v, registry.read (place.index (i + k)) t n = .ok v) :
    registry.readElements place t i xs = .error e := by
  induction xs generalizing i j with
  | nil => cases found
  | cons x rest ih =>
    rw [readElements, bind_eq_error]
    cases j with
    | zero =>
      cases found
      exact .inl failed
    | succ j =>
      obtain ⟨v, here⟩ := before 0 x (Nat.succ_pos j) rfl
      refine .inr ⟨v, here, bind_eq_error.mpr (.inl (ih found ?_ fun k n less there => ?_))⟩
      · rwa [← Nat.add_assoc, Nat.add_right_comm] at failed
      · have later := before (k + 1) n (Nat.succ_lt_succ less) there
        rwa [← Nat.add_assoc, Nat.add_right_comm] at later

end Registry

/-! ## Reads of a configuration -/

namespace Config

variable {c : Config} {t : ReadType} {path : String} {p q : Path} {es : List (String × Node)}
  {xs : List Node} {vs : List t.Carrier} {i : Nat} {e : Error}

/-- What is made of the node at a path, or the error that nothing is there. -/
def atPath {α : Type} (c : Config) (make : Path → Node → Result α) (path : String) (p : Path) :
    Result α :=
  match c.root.get? p with
  | some n => make p n
  | none => .error (.missingValue path)

theorem node?_eq (parsed : Path.parse path = .ok p) :
    c.node? path = .ok ((c.root.get? p).map fun n => (p, n)) :=
  bind_eq_ok.mpr ⟨p, parsed, rfl⟩

theorem get_eq_atPath (parsed : Path.parse path = .ok p) :
    c.get t path = c.atPath (fun p n => c.parsers.read p t n) path p := by
  rw [get, get?, node?_eq parsed, atPath]
  cases c.root.get? p with
  | none => rfl
  | some n =>
    show (c.parsers.read p t n >>= fun v => pure (some v)) >>= orMissing path = c.parsers.read p t n
    cases c.parsers.read p t n <;> rfl

theorem getList_eq_atPath (parsed : Path.parse path = .ok p) :
    c.getList t path = c.atPath (fun p n => c.parsers.readList p t n) path p := by
  rw [getList, getList?, node?_eq parsed, atPath]
  cases c.root.get? p with
  | none => rfl
  | some n =>
    show (c.parsers.readList p t n >>= fun v => pure (some v)) >>= orMissing path =
      c.parsers.readList p t n
    cases c.parsers.readList p t n <;> rfl

theorem contains_eq (parsed : Path.parse path = .ok p) :
    c.contains path = (c.root.get? p).isSome := by
  rw [contains, parsed]

/-- In a part of a configuration there is at a path what is there in the whole at the whole path. -/
theorem get?_part (leads : c.root.get? p = some (.map es)) (q : Path) :
    (c.withRoot (.map es)).root.get? q = c.root.get? (p ++ q) := by
  rw [Node.get?_append, leads]
  rfl

theorem atPath_part {α : Type} {make : Path → Node → Result α} {path path' : String}
    (leads : c.root.get? p = some (.map es))
    (place : ∀ p q n, SameOutcome Error.SameKind Eq (make p n) (make q n)) :
    SameOutcome Error.SameKind Eq ((c.withRoot (.map es)).atPath make path q)
      (c.atPath make path' (p ++ q)) := by
  rw [atPath, atPath, get?_part leads]
  cases c.root.get? (p ++ q) with
  | none => exact .error rfl
  | some n => exact place q (p ++ q) n

/-- What an element reads as. -/
theorem get_element (wf : c.root.WellFormed) (leads : c.root.get? q = some (.list xs)) {n : Node}
    (found : xs[i]? = some n) : c.get t (q.index i).text = c.parsers.read (q.index i) t n := by
  have there : c.root.get? (q.index i) = some n := by
    rw [Path.index, Node.get?_append, leads, Option.bind_some, Node.get?_index, found]
    exact Node.get?_nil n
  rw [get_eq_atPath (Path.parse_text (wf.get? there).1), atPath, there]

theorem getList_of_list (parsed : Path.parse path = .ok q) (leads : c.root.get? q = some (.list xs)) :
    c.getList t path = c.parsers.readElements q t 0 xs := by
  rw [getList_eq_atPath parsed, atPath, leads]
  rfl

/-- A list is read exactly if a list is there and each of its elements is read. -/
theorem getList_eq_ok_iff (wf : c.root.WellFormed) : c.getList t path = .ok vs ↔
    ∃ q xs, Path.parse path = .ok q ∧ c.root.get? q = some (.list xs) ∧ vs.length = xs.length ∧
      ∀ i (_ : i < vs.length), c.get t (q.index i).text = .ok vs[i] := by
  constructor
  · intro read
    obtain ⟨_, looked, -⟩ := bind_eq_ok.mp read
    obtain ⟨_, there, -⟩ := bind_eq_ok.mp looked
    obtain ⟨q, parsed, -⟩ := bind_eq_ok.mp there
    rw [getList_eq_atPath parsed, atPath] at read
    match leads : c.root.get? q with
    | none => simp [leads] at read
    | some (.leaf s) => simp [leads, Registry.readList] at read
    | some (.map es) => simp [leads, Registry.readList] at read
    | some (.list xs) =>
      rw [leads] at read
      obtain ⟨length, each⟩ := Registry.readElements_eq_ok_iff.mp read
      refine ⟨q, xs, parsed, leads, length, fun i inside => ?_⟩
      have found := List.getElem?_eq_getElem (length ▸ inside : i < xs.length)
      rw [get_element wf leads found]
      have here := each i _ _ found (List.getElem?_eq_getElem inside)
      rwa [Nat.zero_add] at here
  · rintro ⟨q, xs, parsed, leads, length, each⟩
    rw [getList_of_list parsed leads, Registry.readElements_eq_ok_iff]
    refine ⟨length, fun i n v found found' => ?_⟩
    obtain ⟨inside, rfl⟩ := List.getElem?_eq_some_iff.mp found'
    rw [Nat.zero_add, ← get_element wf leads found]
    exact each i inside

/-- A list whose elements do not all convert fails like the first that does not. -/
theorem getList_eq_error (wf : c.root.WellFormed) (parsed : Path.parse path = .ok q)
    (leads : c.root.get? q = some (.list xs)) (inside : i < xs.length)
    (failed : c.get t (q.index i).text = .error e)
    (before : ∀ j < i, ∃ v, c.get t (q.index j).text = .ok v) : c.getList t path = .error e := by
  have found := List.getElem?_eq_getElem inside
  rw [get_element wf leads found] at failed
  rw [getList_of_list parsed leads]
  refine Registry.readElements_eq_error found (by rwa [Nat.zero_add]) fun k n less there => ?_
  obtain ⟨v, read⟩ := before k less
  rw [get_element wf leads there] at read
  exact ⟨v, by rwa [Nat.zero_add]⟩

/-- Reads compose. Where a map is, there is a part of the configuration, and in it every path reads like the
whole path in the configuration, as any type: with the same value, or with an error of the same kind. A list
reads as the list of what its elements read as, or fails with the error of the first that does not convert. -/
theorem reads_compose (reached : c.Reachable) :
    (∀ p es, c.root.get? p = some (.map es) → ∃ part, c.getConfig p.text = .ok part ∧
      ∀ text q, Path.parse text = .ok q →
        (∀ t : ReadType,
          SameOutcome Error.SameKind Eq (part.get t q.text) (c.get t (p ++ q).text) ∧
          SameOutcome Error.SameKind Eq (part.getList t q.text) (c.getList t (p ++ q).text)) ∧
        part.contains q.text = c.contains (p ++ q).text) ∧
    ∀ (t : ReadType) (path : String),
      (∀ vs : List t.Carrier, c.getList t path = .ok vs ↔
        ∃ q xs, Path.parse path = .ok q ∧ c.root.get? q = some (.list xs) ∧ vs.length = xs.length ∧
          ∀ i (_ : i < vs.length), c.get t (q.index i).text = .ok vs[i]) ∧
      ∀ q xs i e, Path.parse path = .ok q → c.root.get? q = some (.list xs) → i < xs.length →
        c.get t (q.index i).text = .error e →
        (∀ j < i, ∃ v, c.get t (q.index j).text = .ok v) → c.getList t path = .error e := by
  have wf := reached.sound.wellFormed
  refine ⟨fun p es leads => ?_, fun t path => ⟨fun vs => getList_eq_ok_iff wf, ?_⟩⟩
  · have readable := (wf.get? leads).1
    refine ⟨_, getConfig_eq (Path.parse_text readable) leads, fun text q parsed => ?_⟩
    have here := Path.parse_text (Path.readable_of_parse parsed)
    have whole : Path.parse (p ++ q).text = .ok (p ++ q) := by
      refine Path.parse_text (List.forall_mem_append.mpr ⟨readable, ?_⟩)
      exact Path.readable_of_parse parsed
    refine ⟨fun t => ⟨?_, ?_⟩, ?_⟩
    · rw [get_eq_atPath here, get_eq_atPath whole]
      exact atPath_part leads fun p q n => c.parsers.read_place p q t n
    · rw [getList_eq_atPath here, getList_eq_atPath whole]
      exact atPath_part leads fun p q n => c.parsers.readList_place p q t n
    · rw [contains_eq here, contains_eq whole, get?_part leads]
  · exact fun q xs i e parsed leads inside failed before =>
      getList_eq_error wf parsed leads inside failed before

/-- The list in a part has an element that is no truth value. -/
theorem reads_compose_flags :
    let flags : Node := .list [.leaf (.literal (.bool true)), .leaf (.literal (.integer 7))]
    let c := empty.withRoot (.map [("a", .map [("flags", flags)])])
    c.Reachable ∧ (∃ part, c.getConfig "a" = .ok part ∧
      SameOutcome Error.SameKind Eq (part.getList .bool "flags") (c.getList .bool "a.flags")) ∧
    ∃ e, e.path? = some "a.flags[1]" ∧ c.get .bool "a.flags[1]" = .error e ∧
      c.getList .bool "a.flags" = .error e := by
  intro flags c
  have put : empty.put "a.flags" (.sequence [.literal (.bool true), .literal (.integer 7)]) = .ok c :=
    bind_eq_ok.mpr ⟨[.name "a", .name "flags"], by cbv, rfl⟩
  have admissible : Value.Admissible (.sequence [.literal (.bool true), .literal (.integer 7)]) := by
    refine .sequence (by decide) (List.forall_mem_cons.mpr ⟨.literal _, ?_⟩)
    exact List.forall_mem_singleton.mpr (.literal _)
  have reached : c.Reachable := .put .empty admissible put
  let p : Path := [.name "a", .name "flags"]
  have leads : c.root.get? p = some flags := rfl
  have first : c.get .bool (p.index 0).text = .ok true :=
    (get_element reached.sound.wellFormed leads rfl).trans rfl
  obtain ⟨e, path, second⟩ : ∃ e, e.path? = some (p.index 1).text ∧
      c.get .bool (p.index 1).text = .error e :=
    ⟨_, rfl, (get_element reached.sound.wellFormed leads rfl).trans rfl⟩
  have parsed : Path.parse "a.flags" = .ok p := by cbv
  have parsed' : Path.parse "flags" = .ok [.name "flags"] := by cbv
  have text : (p.index 1).text = "a.flags[1]" := by cbv
  obtain ⟨parts, lists⟩ := reads_compose reached
  obtain ⟨part, taken, reads⟩ := parts [.name "a"] _ rfl
  have list := (lists .bool "a.flags").2 p _ 1 e parsed leads (by decide) second fun j less => by
    cases Nat.lt_one_iff.mp less
    exact ⟨true, first⟩
  rw [text] at path second
  exact ⟨reached, ⟨part, taken, ((reads "flags" _ parsed').1 .bool).2⟩, e, path, second, list⟩

end Config

end LayeredConfig
