import EspSqlite.Foundation.CallRun
import EspSqlite.Vfs.ReadBack

/-! # What a path resolves to

`vfs_open`, `vfs_stat` and `vfs_remove` after any history of `vfs_mount`. -/

namespace EspSqlite.Vfs

/-- A call of `vfs_mount`, with the address of the object that it makes and what
`begin` returns. -/
structure Mount where
  name : List Char
  num : Int
  sdFat : Nat
  begins : Bool
  deriving DecidableEq

def Mount.digit (mount : Mount) : Option Nat :=
  if mount.name.take 3 = ['/', 'S', 'D'] then sdIdx mount.name else none

def lastMount (mounts : List Mount) (digit : Nat) : Option Mount :=
  mounts.reverse.find? fun mount => mount.digit = some digit

inductive Target
  | spiffs (path : List Char)
  | sdFat (object : Nat) (path : List Char)

def Target.Proper (mounts : List Mount) (name : List Char) : Target → Prop
  | .spiffs path => name.take 3 ≠ ['/', 'S', 'D'] ∧ path = name.drop 6
  | .sdFat object path =>
      name.take 3 = ['/', 'S', 'D'] ∧ path = name.drop 5 ∧
        ∃ digit mount, sdIdx name = some digit ∧ lastMount mounts digit = some mount ∧
          mount.begins = true ∧ object = mount.sdFat

section Calls

variable {sd : FileStore OpenFlags} {spiffs : FileStore (List Char)}
  (volumes : Nat → sd.Volume)

def mountAll (mounts : List Mount) (world : World sd spiffs) : Option (World sd spiffs) :=
  runCalls (fun world mount =>
    (vfsMount world mount.name mount.num (volumes mount.sdFat) mount.begins).map Prod.snd)
    mounts world

def openedFiles (opened : Option VfsFile × World sd spiffs) :
    Option sd.File × Option spiffs.File × sd.State × spiffs.State :=
  match opened with
  | (none, world) => (none, none, world.sdState, world.spiffsState)
  | (some ⟨.fatfs, fileObj⟩, world) =>
      (world.sdFiles fileObj, none, world.sdState, world.spiffsState)
  | (some ⟨.spiffs, fileObj⟩, world) =>
      (none, world.spiffsFiles fileObj, world.sdState, world.spiffsState)

def openAt (world : World sd spiffs) (mode : List Char) : Option Target →
    Option sd.File × Option spiffs.File × sd.State × spiffs.State
  | none => (none, none, world.sdState, world.spiffsState)
  | some (.sdFat object path) =>
      let opened := sd.openFile world.sdState (volumes object) path (sdfatMode mode)
      (opened.1, none, opened.2, world.spiffsState)
  | some (.spiffs path) =>
      let opened := spiffs.openFile world.spiffsState world.spiffsVolume path mode
      (none, opened.1, world.sdState,
        spiffs.release opened.2 (world.filep.bind world.spiffsFiles))

def existsAt (world : World sd spiffs) : Option Target → Bool
  | none => false
  | some (.sdFat object path) => sd.fileExists world.sdState (volumes object) path
  | some (.spiffs path) => spiffs.fileExists world.spiffsState world.spiffsVolume path

def removeAt (world : World sd spiffs) : Option Target → Bool × sd.State × spiffs.State
  | none => (false, world.sdState, world.spiffsState)
  | some (.sdFat object path) =>
      let removed := sd.removeFile world.sdState (volumes object) path
      (removed.1, removed.2, world.spiffsState)
  | some (.spiffs path) =>
      let removed := spiffs.removeFile world.spiffsState world.spiffsVolume path
      (removed.1, world.sdState, removed.2)

def ActsAt (world : World sd spiffs) (name : List Char) (target : Option Target) : Prop :=
  (∀ mode, (vfsOpen world name mode).map openedFiles = some (openAt volumes world mode target)) ∧
    (vfsStat world name).map Prod.fst =
      some (if existsAt volumes world target then vfsResOk else vfsResErr) ∧
    (vfsRemove world name).map (fun removed =>
        (removed.1, removed.2.sdState, removed.2.spiffsState)) =
      some (if (removeAt volumes world target).1 then vfsResOk else vfsResErr,
        (removeAt volumes world target).2)

end Calls

/-- Over all libraries, with a file object registered or not, the calls of the history
have a meaning, and so have the three calls after them, which act at a proper target
or report an error. -/
def Resolves (registered : Bool) (mounts : List Mount) (name : List Char) : Prop :=
  ∃ target : Option Target, (∀ resolved, target = some resolved → resolved.Proper mounts name) ∧
    ∀ (sd : FileStore OpenFlags) (spiffs : FileStore (List Char)) (volumes : Nat → sd.Volume)
      (world : World sd spiffs), (∀ digit, world.sdFats digit = none) →
      world.filep.isSome = registered →
      ∃ mounted, mountAll volumes mounts world = some mounted ∧
        ActsAt volumes mounted name target

/-- Every path is long enough for the bytes that are read of it and short enough
for `vfs_stat`, a digit is one whose most recent mount began, and `vfs_open` has a
file object for a path of SPIFFS. -/
def Resolvable (registered : Bool) (mounts : List Mount) (name : List Char) : Prop :=
  (∀ mount ∈ mounts, 2 ≤ mount.name.length) ∧ name.length ≤ fsObjNameLen ∧
    if name.take 3 = ['/', 'S', 'D'] then
      ∀ digit, sdIdx name = some digit → 5 ≤ name.length ∧
        ∃ mount, lastMount mounts digit = some mount ∧ mount.begins = true
    else
      6 ≤ name.length ∧ registered = true

/-! ## Histories -/

theorem lastMount_snoc (mounts : List Mount) (mount : Mount) (digit : Nat) :
    lastMount (mounts ++ [mount]) digit =
      if mount.digit = some digit then some mount else lastMount mounts digit := by
  rw [lastMount, List.reverse_append, List.reverse_singleton, List.singleton_append,
    List.find?_cons]
  by_cases same : mount.digit = some digit
  · simp [same]
  · simp [same, lastMount]

section Histories

variable {sd : FileStore OpenFlags} {spiffs : FileStore (List Char)}
  (volumes : Nat → sd.Volume) {world : World sd spiffs}

theorem isSd_eq {name : List Char} (long : 2 ≤ name.length) :
    isSd name = some (name.take 3 == ['/', 'S', 'D']) :=
  if_pos (Nat.succ_le_succ long)

theorem isSd_eq_true_iff {name : List Char} :
    isSd name = some true ↔ name.take 3 = ['/', 'S', 'D'] := by
  rw [isSd]
  constructor
  · intro compared
    split at compared
    · exact beq_iff_eq.mp (Option.some.inj compared)
    · cases compared
  · intro onSd
    have prefixLength := congrArg List.length onSd
    simp only [List.length_take, List.length_cons, List.length_nil] at prefixLength
    rw [if_pos (by omega), onSd]
    rfl

theorem prefix_ne_of_isSd {name : List Char} (notSd : isSd name = some false) :
    name.take 3 ≠ ['/', 'S', 'D'] := by
  intro onSd
  rw [isSd_eq_true_iff.mpr onSd] at notSd
  cases notSd

/-- A mount replaces the volume of its digit, whether it begins or not. -/
theorem vfsMount_eq {mount : Mount} (long : 2 ≤ mount.name.length) :
    vfsMount world mount.name mount.num (volumes mount.sdFat) mount.begins =
      some (if mount.digit.isSome && mount.begins then
          some ⟨.fatfs, volumes mount.sdFat, mount.num⟩ else none,
        { world with sdFats := fun digit =>
            if mount.digit = some digit then some (volumes mount.sdFat)
            else world.sdFats digit }) := by
  rw [vfsMount, isSd_eq long, Mount.digit, Option.map_some]
  by_cases onSd : mount.name.take 3 = ['/', 'S', 'D']
  · rw [if_pos (beq_iff_eq.mpr onSd), if_pos onSd, sdfatMount]
    cases idx : sdIdx mount.name with
    | none => simp
    | some digit =>
        have table : Function.update world.sdFats digit (some (volumes mount.sdFat)) = fun other =>
            if some digit = some other then some (volumes mount.sdFat) else world.sdFats other := by
          funext other
          simp only [Function.update_apply, Option.some.injEq, eq_comm]
        simp only [Option.isSome_some, Bool.true_and, table]
  · rw [if_neg (by simpa using onSd), if_neg onSd]
    simp

theorem mountAll_eq (unmounted : ∀ digit, world.sdFats digit = none) {mounts : List Mount}
    (long : ∀ mount ∈ mounts, 2 ≤ mount.name.length) :
    mountAll volumes mounts world =
      some { world with sdFats := fun digit =>
        (lastMount mounts digit).map fun mount => volumes mount.sdFat } := by
  induction mounts using List.reverseRecOn with
  | nil =>
      have same : world.sdFats = fun _ => none := funext unmounted
      simp only [mountAll, runCalls, List.foldlM_nil, lastMount, List.reverse_nil, List.find?_nil,
        Option.map_none, ← same]
      rfl
  | append_singleton mounts mount induction =>
      have ran := induction fun other member => long other (by simp [member])
      have table : (fun digit => (lastMount (mounts ++ [mount]) digit).map
            fun mount => volumes mount.sdFat) = fun digit =>
          if mount.digit = some digit then some (volumes mount.sdFat)
          else (lastMount mounts digit).map fun mount => volumes mount.sdFat := by
        funext digit
        rw [lastMount_snoc]
        split <;> rfl
      rw [mountAll, runCalls_snoc ran, vfsMount_eq volumes (long mount (by simp)),
        Option.map_some, table]

theorem long_of_mountAll {mounts : List Mount} {mounted : World sd spiffs}
    (ran : mountAll volumes mounts world = some mounted) :
    ∀ mount ∈ mounts, 2 ≤ mount.name.length := by
  intro mount member
  rcases runCalls_stepped ran member with ⟨before, after, stepped⟩
  by_contra short
  rw [vfsMount, isSd, if_neg (by omega)] at stepped
  cases stepped

end Histories

/-! ## Resolution -/

def target (mounts : List Mount) (name : List Char) : Option Target :=
  if name.take 3 = ['/', 'S', 'D'] then
    (sdIdx name).bind fun digit =>
      (lastMount mounts digit).map fun mount => .sdFat mount.sdFat (name.drop 5)
  else
    some (.spiffs (name.drop 6))

theorem target_proper {registered : Bool} {mounts : List Mount} {name : List Char}
    (resolvable : Resolvable registered mounts name) {resolved : Target}
    (isTarget : target mounts name = some resolved) : resolved.Proper mounts name := by
  rcases resolvable with ⟨_, _, mounted⟩
  rw [target] at isTarget
  by_cases onSd : name.take 3 = ['/', 'S', 'D']
  · rw [if_pos onSd] at isTarget mounted
    simp only [Option.bind_eq_some_iff, Option.map_eq_some_iff] at isTarget
    rcases isTarget with ⟨digit, idx, mount, isLast, rfl⟩
    rcases (mounted digit idx).2 with ⟨mount', isLast', begins⟩
    rw [isLast, Option.some.injEq] at isLast'
    subst isLast'
    exact ⟨onSd, rfl, digit, mount, idx, isLast, begins, rfl⟩
  · rw [if_neg onSd, Option.some.injEq] at isTarget
    subst isTarget
    exact ⟨onSd, rfl⟩

section Target

variable {sd : FileStore OpenFlags} {spiffs : FileStore (List Char)}
  (volumes : Nat → sd.Volume) {world : World sd spiffs} {mounts : List Mount} {name : List Char}

theorem skip_eq {count : Nat} (long : count ≤ name.length) :
    skip name count = some (name.drop count) :=
  if_pos long

theorem long_of_skip {count : Nat} {path : List Char} (skipped : skip name count = some path) :
    count ≤ name.length := by
  by_contra short
  rw [skip, if_neg short] at skipped
  cases skipped

def Target.place : Target → Place sd
  | .spiffs path => .spiffs path
  | .sdFat object path => .sdFat (volumes object) path

theorem openPlace_place (mode : List Char) {resolved : Option Target}
    (registered : ∀ path, resolved = some (.spiffs path) → world.filep.isSome = true) :
    (world.openPlace mode (resolved.map (Target.place volumes))).map openedFiles =
      some (openAt volumes world mode resolved) := by
  rcases resolved with _ | ⟨path⟩ | ⟨object, path⟩
  · rfl
  · rcases Option.isSome_iff_exists.mp (registered path rfl) with ⟨filep, isFilep⟩
    simp only [Option.map_some, Target.place, World.openPlace, isFilep, openAt, Option.bind_some]
    rcases spiffs.openFile world.spiffsState world.spiffsVolume path mode with
      ⟨_ | file, state⟩
    · simp only [openedFiles, Option.map_none]
    · simp only [openedFiles, Option.map_some, Function.update_self]
  · simp only [Option.map_some, Target.place, World.openPlace, openAt]
    rcases sd.openFile world.sdState (volumes object) path (sdfatMode mode) with
      ⟨_ | file, state⟩
    · simp only [openedFiles, Option.map_some]
    · simp only [openedFiles, Option.map_some, Function.update_self]

theorem existsPlace_place (resolved : Option Target) :
    world.existsPlace (resolved.map (Target.place volumes)) = existsAt volumes world resolved := by
  rcases resolved with _ | ⟨path⟩ | ⟨object, path⟩ <;> rfl

theorem removePlace_place (resolved : Option Target) :
    ((world.removePlace (resolved.map (Target.place volumes))).1,
      (world.removePlace (resolved.map (Target.place volumes))).2.sdState,
      (world.removePlace (resolved.map (Target.place volumes))).2.spiffsState) =
      removeAt volumes world resolved := by
  rcases resolved with _ | ⟨path⟩ | ⟨object, path⟩ <;> rfl

theorem actsAt_of_leads {resolved : Option Target} (short : name.length ≤ fsObjNameLen)
    (registered : ∀ path, resolved = some (.spiffs path) → world.filep.isSome = true)
    (leads : Leads world name (resolved.map (Target.place volumes))) :
    ActsAt volumes world name resolved := by
  refine ⟨fun mode => ?_, ?_, ?_⟩
  · rw [vfsOpen_eq, leads.eq, Option.bind_some, openPlace_place volumes mode registered]
  · rw [vfsStat_eq, if_pos short, leads.eq, Option.map_some, Option.map_some, existsPlace_place]
  · rw [vfsRemove_eq, leads.eq, Option.map_some, Option.map_some, ← removePlace_place]

end Target

theorem resolves_of_resolvable {registered : Bool} {mounts : List Mount} {name : List Char}
    (resolvable : Resolvable registered mounts name) : Resolves registered mounts name := by
  refine ⟨target mounts name, fun resolved => target_proper resolvable,
    fun sd spiffs volumes world unmounted isRegistered => ?_⟩
  rcases resolvable with ⟨longMounts, short, mounted⟩
  refine ⟨_, mountAll_eq volumes unmounted longMounts, ?_⟩
  rw [target]
  by_cases onSd : name.take 3 = ['/', 'S', 'D']
  · rw [if_pos onSd] at mounted ⊢
    have compared := isSd_eq_true_iff.mpr onSd
    refine actsAt_of_leads volumes short ?_ ?_
    · intro path isSpiffs
      simp only [Option.bind_eq_some_iff, Option.map_eq_some_iff] at isSpiffs
      rcases isSpiffs with ⟨_, _, _, _, differs⟩
      cases differs
    · cases idx : sdIdx name with
      | none => exact .nowhere compared idx
      | some digit =>
          rcases mounted digit idx with ⟨long, mount, isLast, _⟩
          rw [Option.bind_some, isLast, Option.map_some, Option.map_some]
          refine .sdFat compared idx ?_ (skip_eq long)
          simp only [isLast, Option.map_some]
  · rw [if_neg onSd] at mounted ⊢
    rcases mounted with ⟨long, rfl⟩
    refine actsAt_of_leads volumes short (fun _ _ => isRegistered) (.spiffs ?_ (skip_eq long))
    rw [isSd_eq (by omega), beq_eq_false_iff_ne.mpr onSd]

def allExist {Mode : Type} (access : Mode → Access) : FileStore Mode :=
  { memoryStore access with fileExists := fun _ _ _ => true }

def unmountedWorld (registered : Bool) : World (allExist sdAccess) (allExist fopenAccess) where
  sdFats _ := none
  sdFiles _ := none
  sdState _ := none
  mallocs := 0
  spiffsVolume := ()
  spiffsFiles _ := none
  spiffsState _ := none
  filep := if registered then some 0 else none

theorem resolvable_of_resolves {registered : Bool} {mounts : List Mount} {name : List Char}
    (resolves : Resolves registered mounts name) : Resolvable registered mounts name := by
  rcases resolves with ⟨resolved, proper, acts⟩
  let volumes : Nat → (allExist sdAccess).Volume := fun _ => ()
  have unmounted : ∀ digit, (unmountedWorld registered).sdFats digit = none := fun _ => rfl
  have isRegistered : (unmountedWorld registered).filep.isSome = registered := by
    cases registered <;> rfl
  rcases acts _ _ volumes (unmountedWorld registered) unmounted isRegistered with
    ⟨mounted, ran, opened, stat, _⟩
  have longMounts := long_of_mountAll volumes ran
  have isMounted := mountAll_eq volumes unmounted longMounts
  rw [ran, Option.some.injEq] at isMounted
  subst isMounted
  rcases Option.map_eq_some_iff.mp stat with ⟨⟨rc, name'⟩, isStat, isRc⟩
  rw [vfsStat_eq] at isStat
  split at isStat
  case isFalse => cases isStat
  case isTrue short =>
    refine ⟨longMounts, short, ?_⟩
    rcases Option.map_eq_some_iff.mp isStat with ⟨place, led, same⟩
    cases leads_of_eq led with
    | nowhere onSd noDigit =>
        rw [if_pos (isSd_eq_true_iff.mp onSd), noDigit]
        intro digit idx
        cases idx
    | sdFat onSd isDigit inTable skipped =>
        have prefixed := isSd_eq_true_iff.mp onSd
        rw [if_pos prefixed]
        intro digit idx
        refine ⟨long_of_skip skipped, ?_⟩
        rcases resolved with _ | ⟨path⟩ | ⟨object, path⟩
        · have isOk : vfsResOk = rc := (Prod.mk.inj same).1
          rw [← isOk] at isRc
          exact absurd isRc (by simp [existsAt, vfsResOk, vfsResErr])
        · exact absurd prefixed (proper _ rfl).1
        · rcases (proper _ rfl).2.2 with ⟨digit', mount, idx', isLast, begins, _⟩
          rw [idx, Option.some.injEq] at idx'
          subst idx'
          exact ⟨mount, isLast, begins⟩
    | spiffs notSd skipped =>
        rw [if_neg (prefix_ne_of_isSd notSd)]
        refine ⟨long_of_skip skipped, ?_⟩
        rcases Option.map_eq_some_iff.mp (opened modeReadonly) with ⟨_, hasOpened, _⟩
        rw [vfsOpen_eq, led, Option.bind_some, World.openPlace, Option.map_eq_some_iff] at hasOpened
        rcases hasOpened with ⟨filep, isFilep, _⟩
        rw [← isRegistered]
        exact Option.isSome_iff_exists.mpr ⟨filep, isFilep⟩

/-- A path resolves exactly when the paths of the history have two characters
or more, the path is no longer than the name that `vfs_stat` has room for, and
either it has another prefix than `/SD`, six characters and a file object to open it
with, or it has no digit after the prefix, or it has five characters and a digit whose
most recent mount began. -/
theorem resolves_iff_resolvable (registered : Bool) (mounts : List Mount) (name : List Char) :
    Resolves registered mounts name ↔ Resolvable registered mounts name :=
  ⟨resolvable_of_resolves, resolves_of_resolvable⟩

/-- The volume of a card that did not begin is used, whether a file object is registered
or not, and without one no path of SPIFFS is opened. -/
theorem not_resolves_failed_mount :
    (∀ registered,
      ¬Resolves registered [⟨['/', 'S', 'D', '0'], 5, 0, false⟩] ['/', 'S', 'D', '0', '/', 'x']) ∧
      ¬Resolves false [] ['/', 'F', 'L', 'A', 'S', 'H', '/', 'x'] := by
  constructor
  · intro registered resolves
    have mounted := (resolvable_of_resolves resolves).2.2
    rw [if_pos (by decide)] at mounted
    rcases (mounted 0 rfl).2 with ⟨mount, isLast, begins⟩
    have failed : (lastMount [⟨['/', 'S', 'D', '0'], 5, 0, false⟩] 0).map Mount.begins =
        some false := by
      decide
    rw [isLast, Option.map_some, begins] at failed
    cases failed
  · intro resolves
    have registered := (resolvable_of_resolves resolves).2.2
    rw [if_neg (by decide)] at registered
    cases registered.2

end EspSqlite.Vfs
