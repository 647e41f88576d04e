import EspSqlite.Vfs.ReadBack

/-! # Full path names

What `esp8266_FullPathname` leaves in the caller's buffer. The path passes an
array of `FS_OBJ_NAME_LEN + 1` bytes in `vfs_stat` and a buffer of the caller's
length. -/

namespace EspSqlite.Vfs

variable {sd : FileStore OpenFlags} {spiffs : FileStore (List Char)}

def vfsExists (world : World sd spiffs) (name : List Char) : Option Int :=
  (isSd name).bind fun onSd => if onSd then sdfatExists world name else spiffsExists world name

/-- The first `len` bytes of a buffer hold the path and its terminator. -/
def HoldsPath (buffer : Nat → Char) (len : Nat) (path : List Char) : Prop :=
  path.length < len ∧ (∀ index (inside : index < path.length), buffer index = path[index]) ∧
    buffer path.length = nul

def stringAt (buffer : Nat → Char) (len : Nat) : List Char :=
  ((List.range len).map buffer).takeWhile (· ≠ nul)

/-- The call has a meaning, so the name fits in the array of `vfs_stat`, and the
buffer holds the path, or another code than `SQLITE_OK` is returned. -/
def ExactOrRefuses (world : World sd spiffs) (path : List Char) (len : Nat)
    (fullpath : Nat → Char) : Prop :=
  ∃ code after, esp8266FullPathname world path len fullpath = some (code, after) ∧
    (code = sqliteOk → HoldsPath after len path)

def AcceptedAs (world : World sd spiffs) (path : List Char) (len : Nat) (fullpath : Nat → Char)
    (fullName : List Char) : Prop :=
  ∃ after, esp8266FullPathname world path len fullpath = some (sqliteOk, after) ∧
    stringAt after len = fullName

/-! ## The two copies -/

variable {world : World sd spiffs} {path : List Char} {rc : Int} {len : Nat}
  {fullpath : Nat → Char}

theorem vfsStat_eq_vfsExists (world : World sd spiffs) (path : List Char) :
    vfsStat world path =
      if path.length ≤ fsObjNameLen then (vfsExists world path).map fun rc => (rc, path)
      else none := by
  rw [vfsStat]
  by_cases fits : path.length ≤ fsObjNameLen
  · rw [if_pos fits, if_pos fits, vfsExists, Option.map_bind]
    rfl
  · rw [if_neg fits, if_neg fits]

theorem esp8266FullPathname_eq (answers : vfsExists world path = some rc) (len : Nat)
    (fullpath : Nat → Char) :
    esp8266FullPathname world path len fullpath =
      if path.length ≤ fsObjNameLen ∧ 0 < len then
        some (sqliteOk, fun index =>
          if index = len - 1 then nul else strncpy fullpath path len index)
      else none := by
  rw [esp8266FullPathname, vfsStat_eq_vfsExists, answers]
  by_cases fits : path.length ≤ fsObjNameLen
  · simp only [fits, if_true, Option.map_some, Option.bind_some, ite_self, true_and]
    by_cases noRoom : len = 0
    · rw [if_pos noRoom, if_neg (by omega)]
    · rw [if_neg noRoom, if_pos (by omega)]
  · simp only [fits, if_false, false_and, Option.bind_none]

theorem holdsPath_strncpy (fullpath : Nat → Char) (shorter : path.length < len) :
    HoldsPath (fun index => if index = len - 1 then nul else strncpy fullpath path len index)
      len path := by
  refine ⟨shorter, ?_, ?_⟩
  · intro index inside
    have notLast : index ≠ len - 1 := by omega
    have inBuffer : index < len := by omega
    simp only [notLast, if_false, strncpy, inBuffer, if_true, List.getD_eq_getElem?_getD,
      List.getElem?_eq_getElem inside, Option.getD_some]
  · simp only [strncpy, shorter, if_true, List.getD_eq_getElem?_getD,
      List.getElem?_eq_none (Nat.le_refl _), Option.getD_none, ite_self]

theorem stringAt_of_holdsPath {buffer : Nat → Char} (clean : nul ∉ path)
    (holds : HoldsPath buffer len path) : stringAt buffer len = path := by
  rcases holds with ⟨shorter, copied, ended⟩
  obtain ⟨padding, rfl⟩ : ∃ padding, len = path.length + (padding + 1) :=
    ⟨len - path.length - 1, by omega⟩
  have front : (List.range path.length).map buffer = path := by
    apply List.ext_getElem (by simp)
    intro index _ inside
    simpa using copied index inside
  have plain : ∀ character ∈ path, decide (character ≠ nul) = true := by
    intro character member
    simpa using fun isNul : character = nul => clean (isNul ▸ member)
  rw [stringAt, List.range_add, List.map_append, front, List.range_succ_eq_map,
    List.takeWhile_append_of_pos plain]
  simp [ended]

theorem fullName_eq_path {fullName : List Char} (clean : nul ∉ path)
    (exactly : ExactOrRefuses world path len fullpath)
    (accepted : AcceptedAs world path len fullpath fullName) : fullName = path := by
  rcases exactly with ⟨code, after, called, holds⟩
  rcases accepted with ⟨after', called', rfl⟩
  rw [called, Option.some.injEq, Prod.mk.injEq] at called'
  rcases called' with ⟨isOk, rfl⟩
  exact stringAt_of_holdsPath clean (holds isOk)

/-! ## Exact full names -/

/-- `esp8266_FullPathname` is exact or refuses just where the path fits in both
arrays, as it never refuses. There a full name is that of one path. -/
theorem exactOrRefuses_iff (answers : vfsExists world path = some rc) (len : Nat)
    (fullpath : Nat → Char) :
    (ExactOrRefuses world path len fullpath ↔
        path.length ≤ fsObjNameLen ∧ path.length < len) ∧
      ∀ path' fullpath' fullName, nul ∉ path → nul ∉ path' →
        ExactOrRefuses world path len fullpath → ExactOrRefuses world path' len fullpath' →
        AcceptedAs world path len fullpath fullName →
        AcceptedAs world path' len fullpath' fullName → path = path' := by
  constructor
  · constructor
    · intro exactly
      rcases exactly with ⟨code, after, called, holds⟩
      rw [esp8266FullPathname_eq answers] at called
      split at called
      · rename_i fits
        cases called
        exact ⟨fits.1, (holds rfl).1⟩
      · cases called
    · intro fits
      refine ⟨sqliteOk, _, ?_, fun _ => holdsPath_strncpy fullpath fits.2⟩
      rw [esp8266FullPathname_eq answers, if_pos ⟨fits.1, by omega⟩]
  · intro path' fullpath' fullName clean clean' exactly exactly' accepted accepted'
    calc path
      _ = fullName := (fullName_eq_path clean exactly accepted).symm
      _ = path' := fullName_eq_path clean' exactly' accepted'

/-- A path of six characters in a buffer of `mxPathname + 1` bytes. -/
theorem exactOrRefuses_iff_short :
    ExactOrRefuses (memoryWorld fun _ => none) "/SD0/x".toList 51 (fun _ => nul) := by
  have answers : vfsExists (memoryWorld fun _ => none) "/SD0/x".toList = some vfsResErr := by
    decide
  exact (exactOrRefuses_iff answers 51 (fun _ => nul)).1.mpr (by decide)

/-- Neither is a path of 51 characters refused, nor one that is cut off, so that
two are accepted with the same full name. -/
theorem not_exactOrRefuses_long :
    ¬ExactOrRefuses (memoryWorld fun _ => none) ("/SD0/".toList ++ List.replicate 46 'a') 51
        (fun _ => nul) ∧
      AcceptedAs (memoryWorld fun _ => none) "/SD0/abc".toList 8 (fun _ => nul)
        "/SD0/ab".toList ∧
      AcceptedAs (memoryWorld fun _ => none) "/SD0/abd".toList 8 (fun _ => nul)
        "/SD0/ab".toList := by
  refine ⟨?_, ⟨_, rfl, by decide⟩, ⟨_, rfl, by decide⟩⟩
  intro exactly
  rcases exactly with ⟨code, after, called, _⟩
  have overflows : esp8266FullPathname (memoryWorld fun _ => none)
      ("/SD0/".toList ++ List.replicate 46 'a') 51 (fun _ => nul) = none := rfl
  rw [overflows] at called
  cases called

end EspSqlite.Vfs
