import EspSqlite.Vfs.ReadBack

/-! # Errors of a database read

What `esp8266_Read` makes of the answers of a backend, over any backends. -/

namespace EspSqlite.Vfs

variable {sd : FileStore OpenFlags} {spiffs : FileStore (List Char)}

inductive ReadOutcome
  | error
  | endOfFile
  | bytes (count : Nat)
  deriving DecidableEq

/-- The number in which the outcome is returned. SdFat reports an error as a
negative count, SPIFFS as a negative one or as no bytes. -/
def ReadOutcome.Returned (fsType : FsType) (amount : Nat) (count : Int) : ReadOutcome → Prop
  | .error =>
      match fsType with
      | .fatfs => -2 ^ 31 ≤ count ∧ count < 0
      | .spiffs => -2 ^ 31 ≤ count ∧ count ≤ 0
  | .endOfFile => count = 0
  | .bytes got => count = got ∧ 0 < got ∧ got ≤ amount

/-- What a backend reports during a call of `esp8266_Read`: that the offset is
past the end of the file, that it cannot seek, or the outcome of the read, which
SdFat may reach after its first seek failed. -/
inductive Answer
  | pastEnd
  | seekError
  | misplaced (read : ReadOutcome)
  | sought (read : ReadOutcome)

namespace Answer

def Fails : Answer → Prop
  | .pastEnd => False
  | .seekError => True
  | .misplaced _ => True
  | .sought read => read = .error

def ReadFails : Answer → Prop
  | .pastEnd => False
  | .seekError => False
  | .misplaced read => read = .error
  | .sought read => read = .error

end Answer

/-- The answer of the backend of a descriptor to a read of `amount` bytes at an
offset, where the file has `size` bytes. -/
def Answers (world : World sd spiffs) (fd : VfsFile) (buffer : Nat → UInt8)
    (amount : Nat) (offset : Int) (size : Nat) (answer : Answer) : Prop :=
  match fd.fsType with
  | .fatfs =>
      ∃ file, world.sdFiles fd.fileObj = some file ∧ sd.fileSize world.sdState file = size ∧
        match answer with
        | .pastEnd =>
            size < offset ∧
              (seekFirst sd world.sdState offset (seekCases .set) file).1 = vfsResErr
        | .seekError => (seekFirst sd world.sdState offset (seekCases .set) file).1 = vfsResErr
        | .misplaced read =>
            (sd.seek world.sdState file .set offset).1 = false ∧
              ∃ file', seekFirst sd world.sdState offset (seekCases .set) file = (offset, file') ∧
                read.Returned .fatfs amount (sd.read world.sdState file' buffer amount).1
        | .sought read =>
            ∃ file', sd.seek world.sdState file .set offset = (true, file') ∧
              read.Returned .fatfs amount (sd.read world.sdState file' buffer amount).1
  | .spiffs =>
      ∃ file, world.spiffsFiles fd.fileObj = some file ∧
        spiffs.fileSize world.spiffsState file = size ∧
        match answer with
        | .pastEnd => size < offset ∧ (spiffs.seek world.spiffsState file .set offset).1 = false
        | .seekError => (spiffs.seek world.spiffsState file .set offset).1 = false
        | .misplaced _ => False
        | .sought read =>
            ∃ file', spiffs.seek world.spiffsState file .set offset = (true, file') ∧
              read.Returned .spiffs amount (spiffs.read world.spiffsState file' buffer amount).1

/-- `SQLITE_OK` stands for all bytes, `SQLITE_IOERR_SHORT_READ` for the end of the
file, and neither for an error of the read. -/
def NotDisguised (size amount offset : Nat) (answer : Answer) (code : Nat) : Prop :=
  (code = sqliteOk → answer = .sought (.bytes amount)) ∧
    (code = sqliteIoerrShortRead → ¬answer.Fails ∧ size < offset + amount) ∧
    (answer.ReadFails → code ≠ sqliteOk ∧ code ≠ sqliteIoerrShortRead)

/-! ## The call -/

section Call

variable {world : World sd spiffs} {file : Esp8266File} {fd : VfsFile}

theorem esp8266Read_of_failed (isOpen : file.fd = some fd) (buffer : Nat → UInt8)
    (amount offset : Nat) {sought : World sd spiffs}
    (failed : vfsLseek world fd (offset &&& 0x7FFFFFFF : Nat) .set = some (vfsResErr, sought)) :
    esp8266Read world file buffer amount offset =
      some (sqliteIoerrShortRead, buffer, sought) := by
  have other : ¬vfsResErr = ((offset &&& 0x7FFFFFFF : Nat) : Int) := by
    rw [vfsResErr]
    omega
  simp only [esp8266Read, isOpen, Option.bind_some, failed, ne_eq, other, not_false_eq_true,
    if_true]

theorem esp8266Read_of_sought (isOpen : file.fd = some fd) {buffer result : Nat → UInt8}
    {amount offset : Nat} {sought world' : World sd spiffs} {count : Int}
    (moved : vfsLseek world fd (offset &&& 0x7FFFFFFF : Nat) .set =
      some (((offset &&& 0x7FFFFFFF : Nat) : Int), sought))
    (read : vfsRead sought fd buffer amount = some (count, result, world')) :
    esp8266Read world file buffer amount offset =
      some (if toSizeT count = amount then sqliteOk else sqliteIoerrShortRead, result, world') := by
  simp only [esp8266Read, isOpen, Option.bind_some, moved, ne_eq, not_true, if_false, read,
    Option.map_some, ge_iff_le, Nat.zero_le, if_true]

theorem toSizeT_returned {fsType : FsType} {amount : Nat} {count : Int} {read : ReadOutcome}
    (returned : read.Returned fsType amount count) (nonempty : 0 < amount)
    (small : amount < 2 ^ 31) :
    toSizeT (match fsType with
      | .fatfs => if count < 0 then vfsResErr else count
      | .spiffs => if count = 0 then vfsResErr else count) = amount ↔
      read = .bytes amount := by
  have err : toSizeT vfsResErr = 2 ^ 32 - 1 := by decide
  cases read with
  | error =>
      have other : ¬ReadOutcome.error = .bytes amount := ReadOutcome.noConfusion
      cases fsType with
      | fatfs =>
          simp only [ReadOutcome.Returned] at returned
          simp only [if_pos returned.2, err, other, iff_false]
          omega
      | spiffs =>
          simp only [ReadOutcome.Returned] at returned
          simp only [other, iff_false]
          split
          · rw [err]
            omega
          · rw [toSizeT]
            omega
  | endOfFile =>
      have other : ¬ReadOutcome.endOfFile = .bytes amount := ReadOutcome.noConfusion
      have zero : count = 0 := returned
      subst zero
      cases fsType with
      | fatfs =>
          simp only [Int.lt_irrefl, if_false, other, iff_false]
          rw [toSizeT]
          omega
      | spiffs =>
          simp only [if_true, err, other, iff_false]
          omega
  | bytes got =>
      rcases returned with ⟨rfl, positive, inRange⟩
      have same : toSizeT got = got := toSizeT_natCast (by omega)
      have notNegative : ¬(got : Int) < 0 := by omega
      have notZero : ¬(got : Int) = 0 := by omega
      cases fsType with
      | fatfs => simp only [if_neg notNegative, same, ReadOutcome.bytes.injEq]
      | spiffs => simp only [if_neg notZero, same, ReadOutcome.bytes.injEq]

def Answer.code (amount : Nat) (answer : Answer) : Nat :=
  match answer with
  | .pastEnd | .seekError => sqliteIoerrShortRead
  | .misplaced read | .sought read =>
      if read = .bytes amount then sqliteOk else sqliteIoerrShortRead

theorem esp8266Read_code (isOpen : file.fd = some fd) {buffer : Nat → UInt8}
    {amount offset : Nat} (nonempty : 0 < amount) (small : amount < 2 ^ 31)
    (representable : offset < 2 ^ 31) {size : Nat} {answer : Answer}
    (answers : Answers world fd buffer amount offset size answer) :
    ∃ result, esp8266Read world file buffer amount offset = some (answer.code amount, result) := by
  have masked : offset &&& 0x7FFFFFFF = offset := Journal.masked_eq_of_lt representable
  rw [Answers] at answers
  cases fsType : fd.fsType with
  | fatfs =>
      rw [fsType] at answers
      rcases answers with ⟨held, found, _, answers⟩
      rcases vfsLseek_sd fsType found offset .set with ⟨sought, seeks, moved, sameState⟩
      have failed : (seekFirst sd world.sdState offset (seekCases .set) held).1 = vfsResErr →
          ∃ result, esp8266Read world file buffer amount offset =
            some (sqliteIoerrShortRead, result) := by
        intro fails
        rw [fails, ← masked] at seeks
        exact ⟨_, esp8266Read_of_failed isOpen buffer amount offset seeks⟩
      have succeeds : ∀ {following : sd.File} {read : ReadOutcome},
          seekFirst sd world.sdState offset (seekCases .set) held = (↑offset, following) →
          read.Returned .fatfs amount (sd.read world.sdState following buffer amount).1 →
          ∃ result, esp8266Read world file buffer amount offset =
            some (if read = .bytes amount then sqliteOk else sqliteIoerrShortRead, result) := by
        intro following read isFollowing returned
        rw [isFollowing] at seeks moved
        rcases vfsRead_sd fsType moved buffer amount with ⟨after, isRead, _⟩
        rw [sameState] at isRead
        rw [← masked] at seeks
        rw [esp8266Read_of_sought isOpen seeks isRead]
        exact ⟨_, by rw [if_congr (toSizeT_returned returned nonempty small) rfl rfl]⟩
      cases answer with
      | pastEnd => exact failed answers.2
      | seekError => exact failed answers
      | misplaced read =>
          rcases answers with ⟨_, following, isFollowing, returned⟩
          exact succeeds isFollowing returned
      | sought read =>
          rcases answers with ⟨following, first, returned⟩
          refine succeeds ?_ returned
          simp only [seekCases, seekFirst, first]
  | spiffs =>
      rw [fsType] at answers
      rcases answers with ⟨held, found, _, answers⟩
      rcases vfsLseek_spiffs fsType found offset .set with ⟨sought, seeks, moved, sameState⟩
      have failed : (spiffs.seek world.spiffsState held .set offset).1 = false →
          ∃ result, esp8266Read world file buffer amount offset =
            some (sqliteIoerrShortRead, result) := by
        intro fails
        rw [fails, if_neg Bool.false_ne_true, ← masked] at seeks
        exact ⟨_, esp8266Read_of_failed isOpen buffer amount offset seeks⟩
      cases answer with
      | pastEnd => exact failed answers.2
      | seekError => exact failed answers
      | misplaced read => exact answers.elim
      | sought read =>
          rcases answers with ⟨following, first, returned⟩
          rw [first, if_pos rfl] at seeks
          rw [first] at moved
          rcases vfsRead_spiffs fsType moved buffer amount with ⟨after, isRead, _⟩
          rw [sameState] at isRead
          rw [← masked] at seeks
          rw [esp8266Read_of_sought isOpen seeks isRead]
          exact ⟨_, by rw [if_congr (toSizeT_returned returned nonempty small) rfl rfl]; rfl⟩

end Call

/-- A read error is not disguised exactly when there is none, and all bytes are
read or the file ends before them. -/
theorem esp8266Read_notDisguised_iff {world : World sd spiffs} {file : Esp8266File}
    {fd : VfsFile} (isOpen : file.fd = some fd) {buffer : Nat → UInt8} {amount offset : Nat}
    (nonempty : 0 < amount) (small : amount < 2 ^ 31) (representable : offset < 2 ^ 31)
    {size : Nat} {answer : Answer}
    (answers : Answers world fd buffer amount offset size answer) :
    (∃ code result, esp8266Read world file buffer amount offset = some (code, result) ∧
      NotDisguised size amount offset answer code) ↔
      ¬answer.Fails ∧ (answer = .sought (.bytes amount) ∨ size < offset + amount) := by
  rcases esp8266Read_code isOpen nonempty small representable answers with ⟨result, returned⟩
  have isNotDisguised : (∃ code result, esp8266Read world file buffer amount offset =
      some (code, result) ∧ NotDisguised size amount offset answer code) ↔
      NotDisguised size amount offset answer (answer.code amount) := by
    rw [returned]
    constructor
    · intro notDisguised
      rcases notDisguised with ⟨code, result', same, notDisguised⟩
      rw [Option.some.injEq, Prod.mk.injEq] at same
      rwa [same.1]
    · exact fun notDisguised => ⟨_, _, rfl, notDisguised⟩
  have codes : sqliteIoerrShortRead ≠ sqliteOk := by decide
  rw [isNotDisguised, NotDisguised]
  cases answer with
  | pastEnd => simp [Answer.code, Answer.Fails, Answer.ReadFails, codes]
  | seekError => simp [Answer.code, Answer.Fails]
  | misplaced read =>
      by_cases all : read = .bytes amount
      · simp [Answer.code, Answer.Fails, all]
      · simp [Answer.code, Answer.Fails, all]
  | sought read =>
      by_cases all : read = .bytes amount
      · simp [Answer.code, Answer.Fails, Answer.ReadFails, all, codes.symm]
      · simp only [Answer.code, Answer.Fails, Answer.ReadFails, all, if_false, codes,
          IsEmpty.forall_iff, true_and, Answer.sought.injEq, false_or, ne_eq, not_true,
          forall_const, and_false]
        tauto

def openWorld (content : ByteFile) (access : Access) :
    World (memoryStore sdAccess) (memoryStore fopenAccess) :=
  { memoryWorld fun _ => some content with
    sdFiles := fun _ => some ⟨[], 0, access⟩ }

def cardFile : Esp8266File := ⟨some .io, some ⟨.fatfs, 0⟩, none, []⟩

/-- Two bytes out of a file of three. -/
theorem esp8266Read_notDisguised_iff_inside :
    ∃ code result, esp8266Read (openWorld ⟨3, fun _ => 5⟩ ⟨true, false, false, false⟩) cardFile
        (fun _ => 0) 2 1 = some (code, result) ∧
      NotDisguised 3 2 1 (.sought (.bytes 2)) code := by
  have answers : Answers (openWorld ⟨3, fun _ => 5⟩ ⟨true, false, false, false⟩) ⟨.fatfs, 0⟩
      (fun _ => 0) 2 1 3 (.sought (.bytes 2)) :=
    ⟨_, rfl, rfl, _, rfl, rfl, by decide, by decide⟩
  apply (esp8266Read_notDisguised_iff rfl (by decide) (by decide) (by decide) answers).mpr
  exact ⟨ReadOutcome.noConfusion, Or.inl rfl⟩

/-- A read that the card refuses is a short read. -/
theorem not_esp8266Read_notDisguised_error :
    Answers (openWorld ⟨3, fun _ => 5⟩ ⟨false, true, false, false⟩) ⟨.fatfs, 0⟩ (fun _ => 0) 2 1 3
        (.sought .error) ∧
      ¬∃ code result, esp8266Read (openWorld ⟨3, fun _ => 5⟩ ⟨false, true, false, false⟩) cardFile
          (fun _ => 0) 2 1 = some (code, result) ∧
        NotDisguised 3 2 1 (.sought .error) code := by
  refine ⟨⟨_, rfl, rfl, _, rfl, by decide, by decide⟩, fun notDisguised => ?_⟩
  rcases notDisguised with ⟨code, result, returned, _, _, failed⟩
  have short : (esp8266Read (openWorld ⟨3, fun _ => 5⟩ ⟨false, true, false, false⟩) cardFile
      (fun _ => 0) 2 1).map Prod.fst = some sqliteIoerrShortRead := by
    decide +kernel
  rw [returned] at short
  exact (failed rfl).2 (Option.some.inj short)

end EspSqlite.Vfs
