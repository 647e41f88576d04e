import EspSqlite.Foundation.Loop
import EspSqlite.Shox96.BitReader

/-! # The decompressor

`shox96_0_2_decompress` on an output pointer into memory that continues before
and after the buffer. Every index read or written through the pointer is
recorded. -/

namespace EspSqlite.Shox96

open Loop

/-- The output pointer `out` with `ol`. A read is recorded with the value of
`ol` it was made at. -/
structure OutBuffer where
  bytes : Int → UInt8
  ol : Nat
  reads : List (Int × Nat)
  writes : List Int

def OutBuffer.store (out : OutBuffer) (index : Int) (value : UInt8) : OutBuffer :=
  { out with
    bytes := fun other => if other = index then value else out.bytes other
    writes := index :: out.writes }

def OutBuffer.put (out : OutBuffer) (value : UInt8) : OutBuffer :=
  { out.store out.ol value with ol := out.ol + 1 }

def OutBuffer.putMany (out : OutBuffer) (value : UInt8) : Nat → OutBuffer
  | 0 => out
  | count + 1 => (out.put value).putMany value count

/-- `memcpy(out + ol, out + ol - dist, count)` and the step of `ol`. Source and
destination are disjoint where the C function is defined. -/
def OutBuffer.copyBack (out : OutBuffer) (dist count : Nat) : OutBuffer where
  bytes index :=
    if (out.ol : Int) ≤ index ∧ index < out.ol + count then out.bytes (index - dist)
    else out.bytes index
  ol := out.ol + count
  reads := (List.range count).map (fun index : Nat => ((out.ol : Int) - dist + index, out.ol)) ++
    out.reads
  writes := (List.range count).map (fun index : Nat => (out.ol : Int) + index) ++ out.writes

/-- `memmove(out + ol, source, count)` from another object and the step of
`ol`. -/
def OutBuffer.copyFrom (out : OutBuffer) (source : Nat → UInt8) (count : Nat) : OutBuffer where
  bytes index :=
    if (out.ol : Int) ≤ index ∧ index < out.ol + count then source (index - out.ol).toNat
    else out.bytes index
  ol := out.ol + count
  reads := out.reads
  writes := (List.range count).map (fun index : Nat => (out.ol : Int) + index) ++ out.writes

/-- `char rpt_c = out[ol - 1]` and the loop that repeats it. -/
def OutBuffer.repeatLast (out : OutBuffer) (count : Nat) : OutBuffer :=
  let index : Int := out.ol - 1
  { out with reads := (index, out.ol) :: out.reads }.putMany (out.bytes index) count

structure DecState where
  bitNo : Nat
  dstate : Nat
  isAllUpper : Bool
  out : OutBuffer

/-- A reference to a previous line. Walking past the chain, NULL data and
reading past the terminator have no defined meaning. -/
def copyLine (nodes : List (Option CString)) (dictLen dist ctx : Nat) (s : DecState) :
    Outcome DecState :=
  match nodes[ctx]? with
  | some (some line) =>
      if dist + dictLen ≤ line.strlen + 1 then
        .next { s with
          out := s.out.copyFrom (fun index => line.chars.getD (dist + index) 0) dictLen }
      else
        .fault
  | _ => .fault

def decodeReference (inp : Nat → UInt8) (len : Nat) (nodes : List (Option CString))
    (s : DecState) : Outcome DecState :=
  let within := getBitVal inp s.bitNo 0
  let bitNo := s.bitNo + 1
  if within ≠ 0 then
    let dictLen := readCount inp len bitNo
    let dist := readCount inp len dictLen.2
    .next { s with
      bitNo := dist.2
      out := s.out.copyBack (dist.1 + niceLenForPrior - 1) (dictLen.1 + niceLenForPrior) }
  else
    let dictLen := readCount inp len bitNo
    let dist := readCount inp len dictLen.2
    let ctx := readCount inp len dist.2
    copyLine nodes (dictLen.1 + niceLenForOther) dist.1 ctx.1 { s with bitNo := ctx.2 }

/-- The loop body after the codes are read: `h` and `v` select a table entry. -/
def decodeEntry (inp : Nat → UInt8) (len : Nat) (nodes : List (Option CString))
    (h v : Nat) (isUpper : Bool) (s : DecState) : Outcome DecState :=
  let c := (sets.getD h []).getD v 0
  if 97 ≤ c ∧ c ≤ 122 then
    .next { s with out := s.out.put (if isUpper then c - 32 else c) }
  else
    let c := if isUpper = true ∧ s.dstate = shxSet1 ∧ v = 1 then 9 else c
    if h = shxSet1B then
      match v with
      | 6 => .next { s with out := (s.out.put 13).put 10 }
      | 7 => .next { s with out := s.out.put (if isUpper then 13 else 10) }
      | 8 => decodeReference inp len nodes s
      | 9 =>
          let count := readCount inp len s.bitNo
          .next { s with bitNo := count.2, out := s.out.repeatLast (count.1 + 4) }
      | 10 => .next s
      | _ => .next { s with out := s.out.put c }
    else
      .next { s with out := s.out.put c }

/-- One pass of the main loop, to its next head. `len` is in bits. -/
def decompressStep (inp : Nat → UInt8) (len : Nat) (nodes : List (Option CString))
    (s : DecState) : Outcome DecState :=
  if s.bitNo < len then
    let v := getCodeIdx vcode inp len s.bitNo
    if v.1 = 199 then
      .stop
    else if v.1 = 0 then
      let h := getCodeIdx hcode inp len v.2
      if h.1 = 199 then
        .stop
      else if h.1 = shxSet1 then
        if s.dstate = shxSet1 then
          if s.isAllUpper then
            .next { s with bitNo := h.2, isAllUpper := false }
          else
            let v := getCodeIdx vcode inp len h.2
            if v.1 = 199 then
              .stop
            else if v.1 = 0 then
              let h := getCodeIdx hcode inp len v.2
              if h.1 = 199 then
                .stop
              else if h.1 = shxSet1 then
                .next { s with bitNo := h.2, isAllUpper := true }
              else
                let v := getCodeIdx vcode inp len h.2
                if v.1 = 199 then .stop
                else decodeEntry inp len nodes h.1 v.1 true { s with bitNo := v.2 }
            else
              decodeEntry inp len nodes shxSet1 v.1 true { s with bitNo := v.2 }
        else
          .next { s with bitNo := h.2, dstate := shxSet1 }
      else if h.1 = shxSet2 then
        .next { s with
          bitNo := h.2
          dstate := if s.dstate = shxSet1 then shxSet2 else s.dstate }
      else
        let v := getCodeIdx vcode inp len h.2
        if v.1 = 199 then .stop
        else decodeEntry inp len nodes h.1 v.1 s.isAllUpper { s with bitNo := v.2 }
    else
      decodeEntry inp len nodes s.dstate v.1 s.isAllUpper { s with bitNo := v.2 }
  else
    .stop

/-- The variables before the loop, after `out[0] = 0`. -/
def DecState.initial (out : Int → UInt8) : DecState :=
  ⟨0, shxSet1, false, (OutBuffer.mk out 0 [] []).store 0 0⟩

/-- `shox96_0_2_decompress`, with `len` in bytes: the buffer and the final `ol`,
which is the value returned. `none` is a fault. -/
def decompress (inp : Nat → UInt8) (len : Nat) (out : Int → UInt8)
    (prevLines : Option LnkLst) : Option OutBuffer :=
  (run (decompressStep inp (len <<< 3) (LnkLst.nodes prevLines)) ((len <<< 3) + 1)
    (DecState.initial out)).map (·.out)

end EspSqlite.Shox96
