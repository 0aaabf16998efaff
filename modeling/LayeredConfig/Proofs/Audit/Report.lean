import LayeredConfig.Proofs.Audit.Runs

/-!
# The report of unused values

`ensureAllUsed` fails exactly if a leaf was never read, with a listing of the paths of the unused values of
which the report shows the first ones. These are paths in the tree that is left when the leaves that were
read are gone, and there elements of lists have moved down. So what is listed for a leaf is not its path in
the audited configuration but `Path.renumber` of it (`ensureAllUsed_of_run`). The listed paths are the right
ones exactly if in every list the elements below which something was not read come first. Otherwise the
report can name a path that was read, and keep quiet about the one that was not
(`ensureAllUsed_names_read_path`).
-/

namespace LayeredConfig

namespace Audit

variable {a : Audit} {c : Config} {p : Path} {path : String}

/-- The paths of the leaves that calls leave unread, as they are in the configuration. -/
def neverRead (c : Config) (calls : List Call) : List Path :=
  ((c.root.leaves .root).map Prod.fst).filter fun p => !(passed c calls).any p.startsWith

theorem readable_of_neverRead {calls : List Call} (sound : c.Sound) (mem : p ∈ neverRead c calls) :
    p.Readable := by
  obtain ⟨isLeaf, -⟩ := List.mem_filter.mp mem
  obtain ⟨⟨_, s⟩, found, rfl⟩ := List.mem_map.mp isLeaf
  exact sound.wellFormed.readable found

/-- For a handle of a run, what is unread has the paths that were never read. -/
theorem paths_of_run {s : Session} {calls : List Call} {handle : Nat}
    (run : Session.run c calls = some s) (here : s.audit? handle = some a) :
    a.unread.map Prod.fst = neverRead c calls := by
  rw [unread_of_run run here, neverRead, List.filter_map]
  rfl

theorem ensureAllUsed_of_single (sound : a.config.Sound) (single : a.unread.map Prod.fst = [p]) :
    a.ensureAllUsed = .error (.unusedValues [(p.renumber [p]).text]) := by
  have some : a.unread ≠ [] := fun none => by cases none ▸ single
  rw [ensureAllUsed_of_ne_nil sound some, listing, single, List.map_singleton,
    List.mergeSort_singleton]

/-- All is used if no leaf was left unread. Otherwise the report is made of a listing with one path for each
such leaf, and that is where the leaf moves when the leaves that were read go. The report breaks off behind
the first paths of the listing (`Error.listedPaths`). The last part is about the whole listing, before it is
cut: it has the paths of the leaves exactly if in no list an element without an unread leaf stands in front
of one with an unread leaf. -/
theorem ensureAllUsed_of_run {s : Session} {calls : List Call} {handle : Nat} (reached : c.Reachable)
    (run : Session.run c calls = some s) (here : s.audit? handle = some a) :
    (neverRead c calls = [] → a.ensureAllUsed = .ok ()) ∧
    (neverRead c calls ≠ [] → a.ensureAllUsed = .error (.unusedValues
      ((neverRead c calls).map fun p => (p.renumber (neverRead c calls)).text).mergeSort)) ∧
    (((neverRead c calls).map fun p => (p.renumber (neverRead c calls)).text).mergeSort =
        ((neverRead c calls).map Path.text).mergeSort ↔
      ∀ (p : Path) i j, i < j → (p.index j).isAbove (neverRead c calls) = true →
        (p.index i).isAbove (neverRead c calls) = true) := by
  have unread := paths_of_run run here
  obtain ⟨rfl, -⟩ := isRead_of_run run here
  have sound := reached.sound
  refine ⟨fun none => ?_, fun some => ?_, ?_⟩
  · rw [← unread, List.map_eq_nil_iff] at none
    exact ensureAllUsed_of_nil sound none
  · rw [← unread, Ne, List.map_eq_nil_iff] at some
    rw [ensureAllUsed_of_ne_nil sound some, listing, unread]
  · exact (Path.renumbered_texts_iff fun p mem => readable_of_neverRead sound mem).trans
      Path.renumber_fixed_iff

/-! ## A list that is partly read -/

theorem run_ask {α : Type} (located : c.locate? path = some p) (read : Config → String → Result α) :
    Session.run c [.ask 0 path read] = some ⟨[c], [p]⟩ := by
  have record : ((Audit.mk c []).mark path).read = [p] := by
    rw [read_mark, located]
    rfl
  exact congrArg (fun read => some (Session.mk [c] read)) record

theorem neverRead_ask {α : Type} (located : c.locate? path = some p) (read : Config → String → Result α) :
    neverRead c [.ask 0 path read] =
      ((c.root.leaves .root).map Prod.fst).filter fun q => !q.startsWith p := by
  have only : passed c [.ask 0 path read] = [p] := by
    rw [passed, List.filterMap_cons, Call.path?, Option.bind_some, located]
    rfl
  simp only [neverRead, only, List.any_cons, List.any_nil, Bool.or_false]

/-- The second of two elements is read, and the report names the first one. -/
theorem ensureAllUsed_of_run_second :
    let p : Path := [.name "l", .index 1]
    let calls : List Call := [.ask 0 "l[1]" Config.getString]
    twoTexts.Reachable ∧ Session.run twoTexts calls = some ⟨[twoTexts], [p]⟩ ∧
      Session.audit? ⟨[twoTexts], [p]⟩ 0 = some ⟨twoTexts, [p]⟩ ∧
      (Audit.mk twoTexts [p]).ensureAllUsed = .error (.unusedValues ["l[0]"]) := by
  intro p calls
  have located : twoTexts.locate? "l[1]" = some p :=
    Config.locate?_text (p := [.name "l", .index 1]) (by decide) rfl
  have run := run_ask located Config.getString
  have here : Session.audit? ⟨[twoTexts], [p]⟩ 0 = some ⟨twoTexts, [p]⟩ := rfl
  have left : neverRead twoTexts calls = [[.name "l", .index 0]] := by
    rw [neverRead_ask located]
    rfl
  obtain ⟨-, fails, -⟩ := ensureAllUsed_of_run reachable_twoTexts run here
  refine ⟨reachable_twoTexts, run, here, ?_⟩
  have some : neverRead twoTexts calls ≠ [] := by
    rw [left]
    exact List.cons_ne_nil _ _
  rw [fails some, left, List.map_singleton, List.mergeSort_singleton]
  rfl

/-- The first of two elements is read. The report names this one, because the second one is the first
when it is gone. -/
theorem ensureAllUsed_names_read_path :
    let p : Path := [.name "l", .index 0]
    let calls : List Call := [.ask 0 "l[0]" Config.getString]
    twoTexts.Reachable ∧ Session.run twoTexts calls = some ⟨[twoTexts], [p]⟩ ∧
      neverRead twoTexts calls = [[.name "l", .index 1]] ∧
      (Audit.mk twoTexts [p]).ensureAllUsed = .error (.unusedValues [p.text]) ∧
      Error.unusedValues [p.text] ≠ .unusedValues [Path.text [.name "l", .index 1]] := by
  intro p calls
  have located : twoTexts.locate? "l[0]" = some p :=
    Config.locate?_text (p := [.name "l", .index 0]) (by decide) rfl
  have run := run_ask located Config.getString
  have left : neverRead twoTexts calls = [[.name "l", .index 1]] := by
    rw [neverRead_ask located]
    rfl
  have here : Session.audit? ⟨[twoTexts], [p]⟩ 0 = some ⟨twoTexts, [p]⟩ := rfl
  have unread := (paths_of_run run here).trans left
  refine ⟨reachable_twoTexts, run, left, ?_, by decide⟩
  rw [ensureAllUsed_of_single reachable_twoTexts.sound unread]
  rfl

end Audit

end LayeredConfig
