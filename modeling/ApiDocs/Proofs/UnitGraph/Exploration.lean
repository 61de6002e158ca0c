import ApiDocs.Proofs.Resolution
import ApiDocs.Proofs.UnitGraph.Order

/-!
# The units of a graph

A load of the graph asks for each path at most once, so what it finds there does not depend on when
it asks (`findAt`), and its outcome is that of going through the paths in breadth-first order and
gathering what they give (`explore_eq_gather`). Which paths these are, and what the graph is in the
end, is the matter of `ApiDocs.Proofs.UnitGraph.Closure`.
-/

namespace ApiDocs

/-! ## Ignored paths -/

theorem Text.after?_isSome_iff {start text : List Char} :
    (after? start text).isSome = true ↔ start <+: text := by
  induction start generalizing text with
  | nil => exact ⟨fun _ => List.nil_prefix, fun _ => rfl⟩
  | cons c start ih =>
      cases text with
      | nil =>
          constructor
          · intro given
            cases given
          · intro begins
            cases List.prefix_nil.mp begins
      | cons d text =>
          rw [after?, List.cons_prefix_cons]
          split
          · rename_i same
            rw [ih]
            exact ⟨fun begins => ⟨same, begins⟩, fun begins => begins.2⟩
          · rename_i differs
            constructor
            · intro given
              cases given
            · intro begins
              exact absurd begins.1 differs

theorem Text.hasPart_iff {part text : List Char} : hasPart part text = true ↔ part <:+: text := by
  induction text with
  | nil => rw [hasPart, List.isEmpty_iff, List.infix_nil]
  | cons c text ih =>
      rw [hasPart, Bool.or_eq_true, after?_isSome_iff, ih, List.infix_cons_iff]

namespace UnitGraph

/-- One of the patterns occurs in the path. -/
def Ignored (ignore : List String) (path : ImportPath) : Prop :=
  ∃ pattern ∈ ignore, pattern.toList <:+: path.toList

theorem ignoredBy?_eq_none_iff {ignore : List String} {path : ImportPath} :
    ignoredBy? ignore path = none ↔ ¬ Ignored ignore path := by
  rw [ignoredBy?, List.find?_eq_none, Ignored]
  simp only [Text.hasPart_iff, not_exists, not_and]

/-! ## What a load finds -/

/-- What is found at a path when the loads so far are `past`: nothing if the path is ignored. -/
def findAt (loader : Loader) (ignore : List String) (past : List ImportPath) (path : ImportPath) :
    Except Failure (Option DeclGroup) :=
  match ignoredBy? ignore path with
  | some _ => .ok none
  | none => (loader.answer path (past.count path)).selection path

/-- The paths that a path mentions. -/
def mentions (find : ImportPath → Except Failure (Option DeclGroup)) (path : ImportPath) :
    List ImportPath :=
  match find path with
  | .ok (some group) => (namedImports group).map (·.path)
  | _ => []

/-- The unit of a group, before the declared names are added. -/
def unitOf (path : ImportPath) (group : DeclGroup) : UnitInfo :=
  ⟨path, group.name, importTable group⟩

/-- Adds the unit that is found at a path. -/
def addFound (units : Table UnitInfo) (path : ImportPath) : Option DeclGroup → Table UnitInfo
  | none => units
  | some group => units.insert path (unitOf path group)

/-- The units found at the paths, or the first failure. -/
def gather (find : ImportPath → Except Failure (Option DeclGroup)) (units : Table UnitInfo) :
    List ImportPath → Except Failure (Table UnitInfo)
  | [] => .ok units
  | path :: paths =>
    match find path with
    | .error failure => .error failure
    | .ok found => gather find (addFound units path found) paths

/-- A load is recorded and gives the group that stands for the unit. -/
theorem loadSelected_ends (loader : Loader) (path : ImportPath) (journal : Journal) :
    Ends (loader.loadSelected path journal)
      (fun found left =>
        (loader.answer path (journal.loads.count path)).selection path = .ok found ∧
        left.loads = journal.loads ++ [path])
      fun failure left =>
        (loader.answer path (journal.loads.count path)).selection path = .error failure ∧
        left.loads = journal.loads ++ [path] := by
  have given := loader.loadSelected_fst path journal
  have recorded : (loader.loadSelected path journal).2.loads = journal.loads ++ [path] := by
    refine @Ends.snd _ _ _ (fun left : Journal => left.loads = journal.loads ++ [path]) ?_
    refine Ends.bind (Ends.bind (Ends.get (Ends.bind (Ends.set ?_))))
    cases (loader.answer path (journal.loads.count path)).groups with
    | error failure => exact Ends.throw rfl
    | ok groups =>
        refine Ends.pure ?_
        cases groups with
        | none => exact Ends.pure rfl
        | some groups =>
            dsimp only
            cases selectGroup groups with
            | none => exact Ends.throw rfl
            | some group => exact Ends.pure rfl
  exact Ends.of_cases
    (fun found left ran => ⟨given.symm.trans (congrArg Prod.fst ran), by rw [← recorded, ran]⟩)
    fun failure left ran => ⟨given.symm.trans (congrArg Prod.fst ran), by rw [← recorded, ran]⟩

/-- The paths still to be asked for were asked for as often as in the beginning. -/
def Unasked (past queue seen : List ImportPath) (journal : Journal) : Prop :=
  ∀ path, path ∈ queue ∨ path ∉ seen → journal.loads.count path = past.count path

theorem Unasked.next {past queue seen : List ImportPath} {path : ImportPath}
    {journal left : Journal} (unasked : Unasked past (path :: queue) seen journal)
    (queued : Queued (path :: queue) seen) (paths : List ImportPath)
    (recorded : left.loads = journal.loads ∨ left.loads = journal.loads ++ [path]) :
    Unasked past (queue ++ unseen seen paths) (seen ++ unseen seen paths) left := by
  intro other open_
  have known := queued.seen path List.mem_cons_self
  have earlier : other ∈ path :: queue ∨ other ∉ seen := by
    rcases open_ with later | fresh
    · rcases List.mem_append.mp later with later | found
      · exact Or.inl (List.mem_cons_of_mem _ later)
      · exact Or.inr (mem_unseen.mp found).2
    · exact Or.inr fun seen => fresh (List.mem_append_left _ seen)
  have differs : path ≠ other := by
    rintro rfl
    rcases open_ with later | fresh
    · rcases List.mem_append.mp later with later | found
      · exact (List.nodup_cons.mp queued.once).1 later
      · exact (mem_unseen.mp found).2 known
    · exact fresh (List.mem_append_left _ known)
  rcases recorded with same | longer
  · rw [same]
    exact unasked other earlier
  · rw [longer, List.count_append, List.count_singleton, if_neg (by simpa using differs),
      Nat.add_zero]
    exact unasked other earlier

/-- One step of exploration: what is found at the front of the queue decides how it goes on. The
path is asked for at most once. -/
theorem explore_cons (loader : Loader) (ignore : List String) {past : List ImportPath}
    {path : ImportPath} {journal : Journal}
    (unasked : journal.loads.count path = past.count path) (queue seen : List ImportPath)
    (units : Table UnitInfo) :
    let find := findAt loader ignore past
    ∃ middle : Journal,
      (middle.loads = journal.loads ∨ middle.loads = journal.loads ++ [path]) ∧
      ∀ bound, explore loader ignore (bound + 1) (path :: queue) seen units journal =
        match find path with
        | .error failure => (.error failure, middle)
        | .ok found => explore loader ignore bound (queue ++ unseen seen (mentions find path))
            (seen ++ unseen seen (mentions find path)) (addFound units path found) middle := by
  intro find
  have found : find path = findAt loader ignore past path := rfl
  rw [findAt] at found
  -- where nothing is found, the queue does not grow
  have skips : find path = .ok none → queue ++ unseen seen (mentions find path) = queue ∧
      seen ++ unseen seen (mentions find path) = seen := fun none => by
    rw [mentions, none, unseen, List.append_nil, List.append_nil]
    exact ⟨rfl, rfl⟩
  cases ignored : ignoredBy? ignore path with
  | some pattern =>
      rw [ignored] at found
      refine ⟨{ journal with notices := journal.notices ++ [.unitIgnored path pattern] },
        Or.inl rfl, fun bound => ?_⟩
      rw [explore, ignored, found, (skips found).1, (skips found).2]
      rfl
  | none =>
      rw [ignored, ← unasked] at found
      have ends := loadSelected_ends loader path journal
      cases ran : loader.loadSelected path journal with
      | mk result left =>
          cases result with
          | error failure =>
              obtain ⟨selected, recorded⟩ := ends.error ran
              refine ⟨left, Or.inr recorded, fun bound => ?_⟩
              rw [explore, ignored, found, selected]
              exact Stepping.bind_error ran
          | ok result =>
              obtain ⟨selected, recorded⟩ := ends.ok ran
              have here := found.trans selected
              cases result with
              | none =>
                  refine ⟨{ left with notices := left.notices ++ [.unitNotLocated path] },
                    Or.inr recorded, fun bound => ?_⟩
                  rw [explore, ignored, here, (skips here).1, (skips here).2]
                  exact Stepping.bind_ok ran
              | some group =>
                  refine ⟨left, Or.inr recorded, fun bound => ?_⟩
                  rw [explore, ignored, mentions, here]
                  exact Stepping.bind_ok ran

/-- Exploration goes through the paths in the order of the walk, and asks for each at most once. -/
theorem explore_eq_gather (loader : Loader) (ignore : List String) (past : List ImportPath)
    (bound : Nat) {queue seen : List ImportPath} (units : Table UnitInfo) {journal : Journal}
    (queued : Queued queue seen) (unasked : Unasked past queue seen journal) :
    let find := findAt loader ignore past
    let order := walk (mentions find) bound queue seen
    let run := explore loader ignore bound queue seen units journal
    run.1 = gather find units order ∧
      ∃ asked, run.2.loads = journal.loads ++ asked ∧ asked.Sublist order := by
  intro find order run
  induction bound generalizing queue seen units journal with
  | zero => exact ⟨rfl, [], (List.append_nil _).symm, List.nil_sublist _⟩
  | succ bound ih =>
      cases queue with
      | nil => exact ⟨rfl, [], (List.append_nil _).symm, List.nil_sublist _⟩
      | cons path queue =>
          obtain ⟨middle, recorded, step⟩ := explore_cons loader ignore
            (unasked path (Or.inl List.mem_cons_self)) queue seen units
          have ran : run = _ := step bound
          have went : order = path :: _ := rfl
          rw [ran, went, gather]
          cases here : find path with
          | error failure =>
              rw [show findAt loader ignore past path = .error failure from here]
              refine ⟨rfl, ?_⟩
              rcases recorded with same | longer
              · exact ⟨[], by rw [same, List.append_nil], List.nil_sublist _⟩
              · exact ⟨[path], longer, List.singleton_sublist.mpr List.mem_cons_self⟩
          | ok found =>
              rw [show findAt loader ignore past path = .ok found from here]
              obtain ⟨gathered, asked, loads, sublist⟩ :=
                ih (addFound units path found) (queued.tail.append (mentions find path))
                  (unasked.next queued _ recorded)
              refine ⟨gathered, ?_⟩
              rcases recorded with same | longer
              · exact ⟨asked, by rw [loads, same], sublist.cons path⟩
              · refine ⟨path :: asked, ?_, sublist.cons_cons path⟩
                rw [loads, longer, List.append_assoc, List.singleton_append]

/-- A bound that the walk does not reach does not matter. -/
theorem explore_add (loader : Loader) (ignore : List String) (past : List ImportPath)
    (bound more : Nat) {queue seen : List ImportPath} {units : Table UnitInfo} {journal : Journal}
    (queued : Queued queue seen) (unasked : Unasked past queue seen journal)
    (short : (walk (mentions (findAt loader ignore past)) (bound + 1) queue seen).length ≤ bound) :
    explore loader ignore (bound + more) queue seen units journal =
      explore loader ignore bound queue seen units journal := by
  induction bound generalizing queue seen units journal with
  | zero =>
      cases queue with
      | nil => cases more <;> rfl
      | cons path queue => cases short
  | succ bound ih =>
      rw [Nat.add_right_comm]
      cases queue with
      | nil => rfl
      | cons path queue =>
          obtain ⟨middle, recorded, step⟩ := explore_cons loader ignore
            (unasked path (Or.inl List.mem_cons_self)) queue seen units
          rw [step, step]
          cases here : findAt loader ignore past path with
          | error failure => rfl
          | ok found =>
              exact ih (queued.tail.append _) (unasked.next queued _ recorded)
                (Nat.le_of_succ_le_succ short)

end UnitGraph

end ApiDocs
