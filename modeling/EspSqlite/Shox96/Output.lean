import EspSqlite.Shox96.Symbols

/-! # The output buffer

Every symbol appends its bytes at `ol` and changes nothing before it. A symbol
spells the text at a position when its bytes, computed from the text before
that position, are the bytes of the text there. -/

namespace EspSqlite.Shox96

/-! ## Growth -/

structure OutBuffer.Grown (before after : OutBuffer) (count : Nat) : Prop where
  ol : after.ol = before.ol + count
  kept : ∀ index : Int, index < before.ol → after.bytes index = before.bytes index
  writes : ∀ index : Int, index ∈ after.writes ↔
    index ∈ before.writes ∨ ((before.ol : Int) ≤ index ∧ index < after.ol)

theorem OutBuffer.Grown.refl (out : OutBuffer) : out.Grown out 0 where
  ol := rfl
  kept _ _ := rfl
  writes index := by
    constructor
    · exact Or.inl
    · intro either
      rcases either with written | ⟨after, before⟩
      · exact written
      · omega

theorem OutBuffer.Grown.trans {first second third : OutBuffer} {left right : Nat}
    (early : first.Grown second left) (late : second.Grown third right) :
    first.Grown third (left + right) where
  ol := by rw [late.ol, early.ol, Nat.add_assoc]
  kept index before := by
    have earlyOl := early.ol
    rw [late.kept index (by omega), early.kept index before]
  writes index := by
    have earlyOl := early.ol
    have lateOl := late.ol
    rw [late.writes, early.writes, or_assoc]
    apply or_congr_right
    omega

@[simp] theorem OutBuffer.put_ol (out : OutBuffer) (value : UInt8) :
    (out.put value).ol = out.ol + 1 := rfl

theorem OutBuffer.put_grown (out : OutBuffer) (value : UInt8) : out.Grown (out.put value) 1 where
  ol := rfl
  kept index before := by
    have notHere : index ≠ out.ol := by omega
    simp [OutBuffer.put, OutBuffer.store, notHere]
  writes index := by
    have here : index = out.ol ↔ (out.ol : Int) ≤ index ∧ index < (out.put value).ol := by
      rw [out.put_ol]
      omega
    rw [← here, or_comm]
    exact List.mem_cons

theorem OutBuffer.putMany_grown (value : UInt8) : ∀ (count : Nat) (out : OutBuffer),
    out.Grown (out.putMany value count) count
  | 0, out => .refl out
  | count + 1, out => by
      have grown := (out.put_grown value).trans
        (OutBuffer.putMany_grown value count (out.put value))
      rwa [Nat.add_comm] at grown

theorem OutBuffer.repeatLast_grown (out : OutBuffer) (count : Nat) :
    out.Grown (out.repeatLast count) count := by
  have grown := OutBuffer.putMany_grown (out.bytes (out.ol - 1)) count
    { out with reads := ((out.ol : Int) - 1, out.ol) :: out.reads }
  exact ⟨grown.ol, grown.kept, grown.writes⟩

private theorem mem_blockWrites {start count : Nat} {index : Int} {writes : List Int} :
    index ∈ (List.range count).map (fun offset : Nat => (start : Int) + offset) ++ writes ↔
      index ∈ writes ∨ ((start : Int) ≤ index ∧ index < (start + count : Nat)) := by
  simp only [List.mem_append, List.mem_map, List.mem_range]
  constructor
  · intro either
    rcases either with ⟨offset, inside, rfl⟩ | written
    · exact Or.inr (by omega)
    · exact Or.inl written
  · intro either
    rcases either with written | ⟨after, before⟩
    · exact Or.inr written
    · exact Or.inl ⟨(index - start).toNat, by omega, by omega⟩

theorem OutBuffer.copyBack_grown (out : OutBuffer) (dist count : Nat) :
    out.Grown (out.copyBack dist count) count where
  ol := rfl
  kept index before := by
    have notInside : ¬((out.ol : Int) ≤ index ∧ index < out.ol + count) := by omega
    simp only [OutBuffer.copyBack, if_neg notInside]
  writes _ := mem_blockWrites

theorem OutBuffer.copyFrom_grown (out : OutBuffer) (source : Nat → UInt8) (count : Nat) :
    out.Grown (out.copyFrom source count) count where
  ol := rfl
  kept index before := by
    have notInside : ¬((out.ol : Int) ≤ index ∧ index < out.ol + count) := by omega
    simp only [OutBuffer.copyFrom, if_neg notInside]
  writes _ := mem_blockWrites

theorem Sym.apply_grown (nodes : List (Option CString)) (out : OutBuffer) (sym : Sym) :
    out.Grown (sym.apply nodes out) sym.width := by
  cases sym with
  | char c => exact out.put_grown c
  | crlf => exact (out.put_grown 13).trans ((out.put 13).put_grown 10)
  | run count => exact out.repeatLast_grown count
  | back length dist => exact out.copyBack_grown dist length
  | line ref =>
      exact out.copyFrom_grown (fun index => lineBytes nodes ref.ctx (ref.dist + index)) ref.length
  | _ => exact .refl out

theorem symsApply_grown (nodes : List (Option CString)) (syms : List Sym) (out : OutBuffer) :
    out.Grown (symsApply nodes out syms) (symsWidth syms) := by
  induction syms generalizing out with
  | nil => exact .refl out
  | cons sym rest induction =>
      rw [symsWidth_cons]
      exact (sym.apply_grown nodes out).trans (induction _)

/-! ## Appended bytes -/

theorem OutBuffer.put_bytes (out : OutBuffer) (value : UInt8) :
    (out.put value).bytes out.ol = value := by
  simp [OutBuffer.put, OutBuffer.store]

theorem OutBuffer.putMany_bytes (value : UInt8) : ∀ (count : Nat) (out : OutBuffer) (index : Nat),
    index < count → (out.putMany value count).bytes (out.ol + index) = value
  | count + 1, out, 0, _ => by
      have later := OutBuffer.putMany_grown value count (out.put value)
      have before : (out.ol : Int) < (out.put value).ol := by
        rw [out.put_ol]
        omega
      have position : (out.ol : Int) + (0 : Nat) = out.ol := by omega
      rw [OutBuffer.putMany, position, later.kept _ before]
      exact out.put_bytes value
  | count + 1, out, index + 1, inside => by
      have later := OutBuffer.putMany_bytes value count (out.put value) index (by omega)
      have position : (out.ol : Int) + (index + 1 : Nat) = (out.put value).ol + index := by
        rw [out.put_ol]
        omega
      rw [OutBuffer.putMany, position, later]

theorem OutBuffer.repeatLast_bytes (out : OutBuffer) {count index : Nat} (inside : index < count) :
    (out.repeatLast count).bytes (out.ol + index) = out.bytes (out.ol - 1) :=
  OutBuffer.putMany_bytes _ count _ index inside

theorem OutBuffer.copyBack_bytes (out : OutBuffer) (dist : Nat) {count index : Nat}
    (inside : index < count) :
    (out.copyBack dist count).bytes (out.ol + index) = out.bytes (out.ol + index - dist) := by
  have inBlock : (out.ol : Int) ≤ out.ol + index ∧ (out.ol : Int) + index < out.ol + count := by
    omega
  simp only [OutBuffer.copyBack, if_pos inBlock]

theorem OutBuffer.copyFrom_bytes (out : OutBuffer) (source : Nat → UInt8) {count index : Nat}
    (inside : index < count) :
    (out.copyFrom source count).bytes (out.ol + index) = source index := by
  have inBlock : (out.ol : Int) ≤ out.ol + index ∧ (out.ol : Int) + index < out.ol + count := by
    omega
  have offset : ((out.ol : Int) + index - out.ol).toNat = index := by omega
  simp only [OutBuffer.copyFrom, if_pos inBlock, offset]

/-! ## Spelling a text -/

def Sym.Stands (text : List UInt8) (nodes : List (Option CString)) (l : Nat) : Sym → Prop
  | .char c => byteAt text l = c
  | .crlf => byteAt text l = 13 ∧ byteAt text (l + 1) = 10
  | .run count => 0 < l ∧ ∀ index < count, byteAt text (l + index) = byteAt text (l - 1)
  | .back length dist => length ≤ dist ∧ dist ≤ l ∧
      ∀ index < length, byteAt text (l + index) = byteAt text (l - dist + index)
  | .line ref => ∀ index < ref.length,
      byteAt text (l + index) = lineBytes nodes ref.ctx (ref.dist + index)
  | _ => True

def SymsStand (text : List UInt8) (nodes : List (Option CString)) : Nat → List Sym → Prop
  | _, [] => True
  | l, sym :: rest => sym.Stands text nodes l ∧ SymsStand text nodes (l + sym.width) rest

theorem symsStand_append {text : List UInt8} {nodes : List (Option CString)} {l : Nat}
    {left right : List Sym} :
    SymsStand text nodes l (left ++ right) ↔
      SymsStand text nodes l left ∧ SymsStand text nodes (l + symsWidth left) right := by
  induction left generalizing l with
  | nil => simp [SymsStand]
  | cons sym left induction =>
      simp only [List.cons_append, SymsStand, induction, and_assoc, symsWidth_cons,
        Nat.add_assoc]

theorem symsStand_of_isSwitch {text : List UInt8} {nodes : List (Option CString)}
    {syms : List Sym} (switches : ∀ sym ∈ syms, sym.isSwitch = true) :
    ∀ l, SymsStand text nodes l syms := by
  induction syms with
  | nil => exact fun _ => trivial
  | cons sym rest induction =>
      intro l
      refine ⟨?_, induction (fun other member => switches other
        (List.mem_cons_of_mem sym member)) _⟩
      have isSwitch := switches sym List.mem_cons_self
      cases sym <;> trivial

def OutBuffer.Shows (out : OutBuffer) (text : List UInt8) : Prop :=
  ∀ index : Nat, index < out.ol → out.bytes index = byteAt text index

theorem OutBuffer.Grown.shows {text : List UInt8} {before after : OutBuffer} {count : Nat}
    (grown : before.Grown after count) (shows' : before.Shows text)
    (same : ∀ index < count,
      after.bytes (before.ol + index) = byteAt text (before.ol + index)) :
    after.Shows text := by
  intro index inside
  by_cases old : index < before.ol
  · rw [grown.kept index (by omega), shows' index old]
  · have ol := grown.ol
    have fresh := same (index - before.ol) (by omega)
    have position : (before.ol : Int) + (index - before.ol : Nat) = index := by omega
    rwa [Nat.add_sub_cancel' (by omega), position] at fresh

private theorem OutBuffer.put_shows {text : List UInt8} {out : OutBuffer} {c : UInt8}
    (shows' : out.Shows text) (here : byteAt text out.ol = c) : (out.put c).Shows text := by
  apply (out.put_grown c).shows shows'
  intro index inside
  obtain rfl : index = 0 := Nat.lt_one_iff.mp inside
  have position : (out.ol : Int) + (0 : Nat) = out.ol := by omega
  rw [position, Nat.add_zero, out.put_bytes, here]

theorem Sym.apply_shows {text : List UInt8} {nodes : List (Option CString)} {out : OutBuffer}
    (shows' : out.Shows text) {sym : Sym} (stands : sym.Stands text nodes out.ol) :
    (sym.apply nodes out).Shows text := by
  have grown := sym.apply_grown nodes out
  cases sym with
  | char c => exact OutBuffer.put_shows shows' stands
  | crlf => exact OutBuffer.put_shows (OutBuffer.put_shows shows' stands.1) stands.2
  | run count =>
      rcases stands with ⟨positive, same⟩
      apply grown.shows shows'
      intro index inside
      have last := shows' (out.ol - 1) (by omega)
      have position : ((out.ol - 1 : Nat) : Int) = out.ol - 1 := by omega
      rw [position] at last
      rw [same index inside, ← last]
      exact out.repeatLast_bytes inside
  | back length dist =>
      rcases stands with ⟨apart, reaches, same⟩
      apply grown.shows shows'
      intro index inside
      simp only [Sym.width] at inside
      have source := shows' (out.ol - dist + index) (by omega)
      rw [same index inside, ← source, Sym.apply, out.copyBack_bytes dist inside]
      congr 1
      omega
  | line ref =>
      apply grown.shows shows'
      intro index inside
      rw [stands index inside]
      exact out.copyFrom_bytes (fun index => lineBytes nodes ref.ctx (ref.dist + index)) inside
  | _ => exact shows'

theorem symsApply_shows {text : List UInt8} {nodes : List (Option CString)} {syms : List Sym} :
    ∀ {out : OutBuffer}, out.Shows text → SymsStand text nodes out.ol syms →
    (symsApply nodes out syms).Shows text := by
  induction syms with
  | nil => exact fun shows' _ => shows'
  | cons sym rest induction =>
      intro out shows' stand
      apply induction (sym.apply_shows shows' stand.1)
      rw [(sym.apply_grown nodes out).ol]
      exact stand.2

end EspSqlite.Shox96
