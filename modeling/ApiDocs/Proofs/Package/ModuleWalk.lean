import ApiDocs.Package.Module
import ApiDocs.Proofs.Run
import Mathlib.Data.Finset.Card
import Mathlib.Data.Nat.Digits.Lemmas
import Mathlib.Logic.Relation

/-!
# The walk over module files

The walk over the files of a target is written with a bound on how deep modules lie. Here it is a
machine with a list of places that are still to be visited (`ModuleConf`): a step passes over a
place that was visited under the same path, or reads a file and puts the places that its modules
lead to in front (`ModuleStep`).

A path is visited once and has fewer bytes than the limit for paths, so there are only so many
visits (`ModuleWalk.Sound.length_visited_le`), and the bound is never reached: the files of a target
are those of the machine's run, and it fails only where the machine meets a file that cannot be read
(`moduleFiles_outcome`). Since there is at most one step to take, no run goes on forever
(`acc_start`). Nothing else stops it: without the limit, a file that leads to itself through `..`
would be visited under longer and longer paths.
-/

namespace ApiDocs

/-! ## How many paths there are -/

/-- The number with the bytes of a text as digits, below a leading one. -/
def byteCode (text : String) : Nat :=
  Nat.ofDigits 256 (text.toByteArray.data.toList.map UInt8.toNat ++ [1])

theorem lt_of_mem_byteDigits (text : String) :
    ∀ digit ∈ text.toByteArray.data.toList.map UInt8.toNat ++ [1], digit < 256 := by
  intro digit among
  rcases List.mem_append.mp among with inText | one
  · obtain ⟨byte, _, rfl⟩ := List.mem_map.mp inText
    exact byte.toNat_lt
  · rw [List.mem_singleton.mp one]
    decide

theorem digits_byteCode (text : String) :
    Nat.digits 256 (byteCode text) = text.toByteArray.data.toList.map UInt8.toNat ++ [1] :=
  Nat.digits_ofDigits 256 (by decide) _ (lt_of_mem_byteDigits text) fun _ => by simp

/-- Different texts have different numbers, as the digits of the number give back the bytes. -/
theorem byteCode_injective : Function.Injective byteCode := by
  intro text other same
  have digits := congrArg (Nat.digits 256) same
  rw [digits_byteCode, digits_byteCode] at digits
  have bytes := List.map_injective_iff.mpr (fun _ _ => UInt8.toNat_inj.mp)
    (List.append_cancel_right digits)
  exact String.toByteArray_inj.mp (ByteArray.ext (Array.toList_inj.mp bytes))

/-- There are only so many texts with fewer bytes than a limit. -/
theorem byteCode_lt {text : String} {limit : Nat} (short : text.utf8ByteSize < limit) :
    byteCode text < Nat.pow 256 limit := by
  have bound := Nat.ofDigits_lt_base_pow_length (by decide : 1 < 256) (lt_of_mem_byteDigits text)
  refine Nat.lt_of_lt_of_le bound (Nat.pow_le_pow_right (by decide) ?_)
  simpa using short

namespace FileSystem

variable {fs : FileSystem}

/-- The path of a file that can be read is short. -/
theorem byteCode_lt_of_readText? {path : Path} {text : String}
    (readable : fs.readText? path = some text) : byteCode path.text < moduleDepth := by
  unfold moduleDepth
  refine byteCode_lt ?_
  by_contra long
  have refused : check path = .error .missing ∨ check path = .error .other := by
    unfold check
    split
    · exact Or.inl rfl
    · rw [if_pos]
      · exact Or.inr rfl
      · simp [Nat.le_of_not_lt long]
  rw [readText?, lookup?, locate] at readable
  rcases refused with missing | other
  · rw [missing] at readable
    cases readable
  · rw [other] at readable
    cases readable

/-- There are only so many paths by which files can be read. -/
theorem length_le_of_readable {visited : List (List Path.Component)} (nodup : visited.Nodup)
    (readable : ∀ components ∈ visited, ∃ path text, fs.readText? path = some text ∧
      path.components = components) : visited.length ≤ moduleDepth := by
  -- several paths may have the components of an entry; one is chosen for each, and numbered
  choose! path text read spelled using readable
  let codes := visited.map fun components => byteCode (path components).text
  have distinct : codes.Nodup := by
    refine nodup.map_on fun components among others listed same => ?_
    have samePath : path components = path others :=
      congrArg Path.mk (byteCode_injective same)
    rw [← spelled components among, ← spelled others listed, samePath]
  have below : codes.toFinset ⊆ Finset.range moduleDepth := by
    intro code among
    obtain ⟨components, listed, rfl⟩ := List.mem_map.mp (List.mem_toFinset.mp among)
    exact Finset.mem_range.mpr (byteCode_lt_of_readText? (read components listed))
  have counted := Finset.card_le_card below
  rw [List.toFinset_card_of_nodup distinct, Finset.card_range, List.length_map] at counted
  exact counted

end FileSystem

/-! ## Reading a file -/

namespace SourceFile

variable {fs : FileSystem} {path : Path} {file : SourceFile}

/-- A file that is loaded has the path that it was asked for, and its text could be read. -/
theorem of_load (loaded : load fs path = .ok file) :
    file.path = path.text ∧ ∃ text, fs.readText? path = some text := by
  cases given : fs.readText? path with
  | none =>
      rw [load, given] at loaded
      cases loaded
  | some text =>
      rw [load, given] at loaded
      change read path.text text = .ok file at loaded
      rw [read] at loaded
      split at loaded
      · cases loaded
        exact ⟨rfl, text, rfl⟩
      · cases loaded

/-- The components of the path that a file was read by. -/
def components (file : SourceFile) : List Path.Component := (Path.mk file.path).components

theorem components_of_load (loaded : load fs path = .ok file) :
    file.components = path.components := by
  rw [components, (of_load loaded).1]

end SourceFile

/-! ## The machine -/

/-- A walk with the places that are still to be visited and the notices so far. -/
structure ModuleConf where
  todo : List ModuleContext
  walk : ModuleWalk
  notices : List Notice

/-- The walk after a file was read. -/
def ModuleWalk.after (walk : ModuleWalk) (path : Path) (file : SourceFile) : ModuleWalk :=
  ⟨walk.files ++ [file], path.components :: walk.visited⟩

/-- Where the modules that a file declares lead. -/
def SourceFile.links (fs : FileSystem) (context : ModuleContext) (file : SourceFile) :
    List ModuleLink :=
  ModuleLink.ofItems fs context file.content.items

/-- A place is passed over, or its file is read and the places that its modules lead to come
first. -/
inductive ModuleStep (fs : FileSystem) : ModuleConf → ModuleConf → Prop where
  | pass {context : ModuleContext} {todo : List ModuleContext} {walk : ModuleWalk}
      {notices : List Notice} (visited : context.file.components ∈ walk.visited) :
      ModuleStep fs ⟨context :: todo, walk, notices⟩ ⟨todo, walk, notices⟩
  | read {context : ModuleContext} {todo : List ModuleContext} {walk : ModuleWalk}
      {notices : List Notice} {file : SourceFile}
      (fresh : context.file.components ∉ walk.visited)
      (loaded : SourceFile.load fs context.file = .ok file) :
      ModuleStep fs ⟨context :: todo, walk, notices⟩
        ⟨(file.links fs context).filterMap ModuleLink.context? ++ todo,
          walk.after context.file file,
          notices ++ (file.links fs context).flatMap ModuleLink.notices⟩

/-- Any number of steps. -/
abbrev ModuleRun (fs : FileSystem) : ModuleConf → ModuleConf → Prop :=
  Relation.ReflTransGen (ModuleStep fs)

/-- A configuration whose first place is fresh and cannot be read. -/
inductive ModuleConf.Fails (fs : FileSystem) : ModuleConf → Failure → Prop where
  | mk {context : ModuleContext} {todo : List ModuleContext} {walk : ModuleWalk}
      {notices : List Notice} {failure : Failure}
      (fresh : context.file.components ∉ walk.visited)
      (failed : SourceFile.load fs context.file = .error failure) :
      Fails fs ⟨context :: todo, walk, notices⟩ failure

/-- The configuration that the walk from a file starts with. -/
def ModuleConf.start (file : Path) (notices : List Notice) : ModuleConf :=
  ⟨[⟨file, file.parent?.getD ⟨""⟩⟩], {}, notices⟩

namespace ModuleStep

variable {fs : FileSystem} {conf next other : ModuleConf}

/-- There is at most one step to take: the first place decides. -/
theorem deterministic (step : ModuleStep fs conf next) (another : ModuleStep fs conf other) :
    next = other := by
  cases step with
  | pass visited =>
      cases another with
      | pass _ => rfl
      | read fresh _ => exact absurd visited fresh
  | read fresh loaded =>
      cases another with
      | pass visited => exact absurd visited fresh
      | read _ again =>
          cases loaded.symm.trans again
          rfl

/-- Where the walk fails, no step is taken. -/
theorem not_of_fails {failure : Failure} (fails : conf.Fails fs failure) :
    ¬ ModuleStep fs conf next := by
  intro step
  cases fails with
  | mk fresh failed =>
      cases step with
      | pass visited => exact fresh visited
      | read _ loaded => cases failed.symm.trans loaded

theorem not_of_nothing {walk : ModuleWalk} {notices : List Notice} :
    ¬ ModuleStep fs ⟨[], walk, notices⟩ next := by
  rintro ⟨⟩

/-- A run that comes to an end is the only one. -/
theorem acc_of_run (run : ModuleRun fs conf next) (stuck : ∀ after, ¬ ModuleStep fs next after) :
    Acc (fun later earlier => ModuleStep fs earlier later) conf := by
  induction run using Relation.ReflTransGen.head_induction_on with
  | refl => exact Acc.intro _ fun after step => absurd step (stuck after)
  | head step _ ended =>
      refine Acc.intro _ fun after another => ?_
      rw [another.deterministic step]
      exact ended

end ModuleStep

/-! ## What a walk keeps -/

namespace ModuleWalk

variable {fs : FileSystem} {walk : ModuleWalk}

/-- The paths visited are those that the files were read by, no two of them with the same
components. -/
structure Sound (fs : FileSystem) (walk : ModuleWalk) : Prop where
  nodup : walk.visited.Nodup
  visited_eq : walk.visited = (walk.files.map SourceFile.components).reverse
  loaded : ∀ file ∈ walk.files, SourceFile.load fs ⟨file.path⟩ = .ok file

theorem Sound.start (fs : FileSystem) : Sound fs {} :=
  ⟨List.nodup_nil, rfl, fun _ among => absurd among List.not_mem_nil⟩

/-- A file that is read adds its path, which was not visited before. -/
theorem Sound.after (sound : walk.Sound fs) {path : Path} {file : SourceFile}
    (fresh : path.components ∉ walk.visited) (loaded : SourceFile.load fs path = .ok file) :
    (walk.after path file).Sound fs where
  nodup := List.nodup_cons.mpr ⟨fresh, sound.nodup⟩
  visited_eq := by
    rw [ModuleWalk.after, List.map_append, List.reverse_append, ← sound.visited_eq,
      List.map_singleton, SourceFile.components_of_load loaded, List.reverse_singleton,
      List.singleton_append]
  loaded := by
    intro other among
    rcases List.mem_append.mp among with before | last
    · exact sound.loaded other before
    · rw [List.mem_singleton.mp last, (SourceFile.of_load loaded).1]
      exact loaded

/-- Only so many paths can be visited, since each of them is short enough to be read by. -/
theorem Sound.length_visited_le (sound : walk.Sound fs) : walk.visited.length ≤ moduleDepth := by
  have readable : ∀ components ∈ walk.visited, ∃ path text, fs.readText? path = some text ∧
      path.components = components := by
    intro components among
    rw [sound.visited_eq, List.mem_reverse] at among
    obtain ⟨file, listed, rfl⟩ := List.mem_map.mp among
    obtain ⟨_, text, read⟩ := SourceFile.of_load (sound.loaded file listed)
    exact ⟨_, text, read, rfl⟩
  exact FileSystem.length_le_of_readable sound.nodup readable

end ModuleWalk

namespace ModuleStep

variable {fs : FileSystem} {conf next : ModuleConf}

theorem sound (step : ModuleStep fs conf next) (before : conf.walk.Sound fs) :
    next.walk.Sound fs := by
  cases step with
  | pass _ => exact before
  | read fresh loaded => exact before.after fresh loaded

/-- No visit is forgotten. -/
theorem length_visited_le (step : ModuleStep fs conf next) :
    conf.walk.visited.length ≤ next.walk.visited.length := by
  cases step with
  | pass _ => exact Nat.le_refl _
  | read _ _ => exact Nat.le_succ _

end ModuleStep

namespace ModuleRun

variable {fs : FileSystem} {conf next : ModuleConf}

theorem sound (run : ModuleRun fs conf next) (before : conf.walk.Sound fs) :
    next.walk.Sound fs := by
  induction run with
  | refl => exact before
  | tail _ step kept => exact step.sound kept

theorem length_visited_le (run : ModuleRun fs conf next) :
    conf.walk.visited.length ≤ next.walk.visited.length := by
  induction run with
  | refl => exact Nat.le_refl _
  | tail _ step more => exact Nat.le_trans more step.length_visited_le

end ModuleRun

/-! ## Visits -/

namespace ModuleWalk

variable {fs : FileSystem} {walk : ModuleWalk} {below : List ModuleContext → Walking Unit}
  {context : ModuleContext} {notices : List Notice}

/-- A visit in one equation: nothing is done at a visited path, and else the file is read and its
links followed. -/
theorem visitWith_eq :
    visitWith fs below context walk notices =
      if context.file.components ∈ walk.visited then (.ok ((), walk), notices)
      else
        match SourceFile.load fs context.file with
        | .error failure => (.error failure, notices)
        | .ok file =>
          below ((file.links fs context).filterMap ModuleLink.context?)
            (walk.after context.file file)
            (notices ++ (file.links fs context).flatMap ModuleLink.notices) := by
  unfold visitWith
  change (if (!walk.visited.contains context.file.components) = true then _ else _ : Walking Unit)
    walk notices = _
  by_cases visited : context.file.components ∈ walk.visited
  · rw [if_neg (by simp [visited]), if_pos visited]
    rfl
  · rw [if_pos (by simp [visited]), if_neg visited]
    cases SourceFile.load fs context.file with
    | error failure => rfl
    | ok file => rfl

/-- A visit that does what the machine does, as long as there may be at most `depth` more files:
it takes the places off the list, or it fails where the machine cannot go on. -/
def Follows (fs : FileSystem) (depth : Nat) (contexts : List ModuleContext)
    (visit : Walking Unit) : Prop :=
  ∀ (walk : ModuleWalk) (notices : List Notice) (todo : List ModuleContext), walk.Sound fs →
    moduleDepth < walk.visited.length + depth →
    Ends (visit walk notices)
      (fun result left => ModuleRun fs ⟨contexts ++ todo, walk, notices⟩ ⟨todo, result.2, left⟩)
      fun failure left => ∃ conf, ModuleRun fs ⟨contexts ++ todo, walk, notices⟩ conf ∧
        conf.Fails fs failure ∧ conf.notices = left

namespace Follows

variable {depth : Nat} {contexts : List ModuleContext}

/-- There cannot be more files than there are paths. -/
theorem zero {visit : Walking Unit} : Follows fs 0 contexts visit := by
  intro walk notices todo sound room
  exact absurd sound.length_visited_le (Nat.not_le_of_lt room)

theorem nil : Follows fs depth [] (pure ()) := by
  intro walk notices todo _ _
  exact Ends.pure Relation.ReflTransGen.refl

/-- Places one after the other are visited one after the other. -/
theorem cons {first rest : Walking Unit} (onFirst : Follows fs depth [context] first)
    (onRest : Follows fs depth contexts rest) :
    Follows fs depth (context :: contexts) (first >>= fun _ => rest) := by
  intro walk notices todo sound room
  refine Ends.bind ((onFirst walk notices (contexts ++ todo) sound room).mono ?_ ?_)
  · rintro ⟨_, between⟩ left run
    have room : moduleDepth < between.visited.length + depth :=
      Nat.lt_of_lt_of_le room (Nat.add_le_add_right (ModuleRun.length_visited_le run) depth)
    refine (onRest between left todo (ModuleRun.sound run sound) room).mono ?_ ?_
    · exact fun _ _ runRest => run.trans runRest
    · rintro failure last ⟨conf, runRest, fails, noted⟩
      exact ⟨conf, run.trans runRest, fails, noted⟩
  · exact fun _ _ failed => failed

/-- The visit of a file is one step, and the steps of the places below it come next. -/
theorem visitWith (onBelow : ∀ contexts, Follows fs depth contexts (below contexts)) :
    Follows fs (depth + 1) [context] (visitWith fs below context) := by
  intro walk notices todo sound room
  rw [visitWith_eq]
  split
  case isTrue visited => exact .single (.pass visited)
  case isFalse fresh =>
    split
    case h_1 failure failed => exact ⟨_, .refl, .mk fresh failed, rfl⟩
    case h_2 file loaded =>
      have room : moduleDepth < (walk.after context.file file).visited.length + depth := by
        change moduleDepth < walk.visited.length + 1 + depth
        omega
      refine (onBelow _ _ _ todo (sound.after fresh loaded) room).mono ?_ ?_
      · exact fun _ _ run => .head (.read fresh loaded) run
      · rintro failure left ⟨conf, run, fails, noted⟩
        exact ⟨conf, .head (.read fresh loaded) run, fails, noted⟩

/-- A walk with a bound on its depth is a run of the machine, by induction on the bound. -/
theorem visitAll (depth : Nat) (contexts : List ModuleContext) :
    Follows fs depth contexts (visitAll fs depth contexts) := by
  induction depth generalizing contexts with
  | zero => exact zero
  | succ depth onBelow =>
      change Follows fs (depth + 1) contexts
        (contexts.forM (ModuleWalk.visitWith fs (ModuleWalk.visitAll fs depth)))
      induction contexts with
      | nil => exact nil
      | cons context contexts onRest => exact cons (visitWith onBelow) onRest

end Follows

end ModuleWalk

/-! ## The files of a target -/

/-- What the machine's run from a file comes to: the files it read, once nothing is left to visit,
or the failure of a file that cannot be read; and the notices up to there. -/
inductive ModuleOutcome (fs : FileSystem) (file : Path) (notices : List Notice) :
    Except Failure (List SourceFile) × List Notice → Prop where
  | files {walk : ModuleWalk} {left : List Notice}
      (run : ModuleRun fs (.start file notices) ⟨[], walk, left⟩) :
      ModuleOutcome fs file notices (.ok walk.files, left)
  | failure {conf : ModuleConf} {failure : Failure}
      (run : ModuleRun fs (.start file notices) conf) (fails : conf.Fails fs failure) :
      ModuleOutcome fs file notices (.error failure, conf.notices)

/-- The files of a target whose modules lie at most `depth` deep. -/
def moduleFilesWithin (fs : FileSystem) (depth : Nat) (file : Path) :
    Noting (List SourceFile) := do
  let (_, walk) ← (ModuleWalk.visitAll fs depth [⟨file, file.parent?.getD ⟨""⟩⟩]).run {}
  return walk.files

-- The depth is a variable here, for the number it stands for is too large to be computed.
/-- With more depth than there can be visits, the bound has no say. -/
theorem moduleFilesWithin_outcome {depth : Nat} (deep : moduleDepth < depth) (fs : FileSystem)
    (file : Path) (notices : List Notice) :
    ModuleOutcome fs file notices (moduleFilesWithin fs depth file notices) := by
  have ends : Ends (moduleFilesWithin fs depth file notices)
      (fun files left => ∃ walk : ModuleWalk,
        ModuleRun fs (.start file notices) ⟨[], walk, left⟩ ∧ walk.files = files)
      fun failure left => ∃ conf, ModuleRun fs (.start file notices) conf ∧
        conf.Fails fs failure ∧ conf.notices = left := by
    refine Ends.bind ((ModuleWalk.Follows.visitAll depth _ {} notices [] (.start fs) ?_).mono ?_ ?_)
    · exact Nat.lt_of_lt_of_le deep (Nat.le_add_left _ _)
    · exact fun result _ run => Ends.pure ⟨result.2, run, rfl⟩
    · exact fun _ _ failed => failed
  cases ran : moduleFilesWithin fs depth file notices with
  | mk result left =>
      cases result with
      | error failure =>
          obtain ⟨conf, run, fails, rfl⟩ := ends.error ran
          exact .failure run fails
      | ok files =>
          obtain ⟨walk, run, rfl⟩ := ends.ok ran
          exact .files run

/-- The files of a target, or its failure, are what the machine comes to. -/
theorem moduleFiles_outcome (fs : FileSystem) (file : Path) (notices : List Notice) :
    ModuleOutcome fs file notices (moduleFiles fs file notices) :=
  moduleFilesWithin_outcome (Nat.lt_add_one moduleDepth) fs file notices

/-- No run of the machine from a file goes on forever. -/
theorem acc_start (fs : FileSystem) (file : Path) (notices : List Notice) :
    Acc (fun later earlier => ModuleStep fs earlier later) (.start file notices) := by
  obtain ⟨outcome, reached⟩ : ∃ outcome, ModuleOutcome fs file notices outcome :=
    ⟨_, moduleFiles_outcome fs file notices⟩
  cases reached with
  | files run => exact ModuleStep.acc_of_run run fun _ => ModuleStep.not_of_nothing
  | failure run fails => exact ModuleStep.acc_of_run run fun _ => ModuleStep.not_of_fails fails

end ApiDocs
