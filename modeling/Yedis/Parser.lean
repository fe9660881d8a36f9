import Yedis.IntToken

/-!
# The request parser

`YProtoParse` as in YedisParser.cpp. A byte range is the list `buf`; `ptr` is the
cursor as an offset into it and may pass its end. Every byte the parser looks at
or copies goes through `readByte` or `copyRange`, so a read outside the range is
the fault `outOfRange`. `int` arithmetic wraps at 32 bits.
-/

namespace Yedis

inductive YParseResult
  | ok
  | wait
  | error
  deriving DecidableEq, Repr

/-- Ways in which a parser call leaves defined behaviour. -/
inductive ParseFault
  | outOfRange
  | assertion
  deriving DecidableEq, Repr

structure YProtoParse where
  nMulti : ℤ := -1
  nParamLen : ℤ := -1
  nNumOfParam : ℕ := 0
  vecParams : List Bytes := []
  deriving DecidableEq, Repr

def readByte (buf : Bytes) (i : ℕ) : Except ParseFault UInt8 :=
  match buf[i]? with
  | some c => .ok c
  | none => .error .outOfRange

def copyRange (buf : Bytes) (i n : ℕ) : Except ParseFault Bytes :=
  if i + n ≤ buf.length then .ok ((buf.drop i).take n) else .error .outOfRange

/-- `std::vector::resize`, with empty strings for new slots. -/
def resize (vec : List Bytes) (n : ℕ) : List Bytes := vec.take n ++ List.replicate (n - vec.length) []

/-- The `for` loop of `getIntUntilCRLF`, with `nBytes - i` rounds left. On `ok` the position is the
index at which the loop was left. -/
def digitLoop (buf : Bytes) (ptr nBytes : ℕ) : ℕ → ℕ → ℤ → Except ParseFault IntRead
  | 0, i, value => .ok (.ok value i)
  | rounds + 1, i, value => do
    let c ← readByte buf (ptr + i)
    if isDigit c then
      digitLoop buf ptr nBytes rounds (i + 1) (wrap32 (wrap32 (value * 10) + (c.toNat - 48 : ℕ)))
    else if c ≠ 13 then
      return .error
    else if i + 1 < nBytes then
      let d ← readByte buf (ptr + i + 1)
      return if d ≠ 10 then .error else .ok value i
    else
      return .wait

/-- The end of `getIntUntilCRLF`, behind its loop: the sign is applied and the cursor moved. -/
def finishInt (negtive : Bool) (ptr : ℕ) : IntRead → IntRead
  | .wait => .wait
  | .error => .error
  | .ok value i => .ok (if negtive then wrap32 (value * -1) else value) (ptr + i + 2)

def getIntUntilCRLF (buf : Bytes) (ptr nBytes : ℕ) : Except ParseFault IntRead := do
  if nBytes < 3 then
    return .wait
  let c ← readByte buf ptr
  let i := if c = 45 ∨ c = 43 then 1 else 0
  let left ← digitLoop buf ptr nBytes (nBytes - i) i 0
  return finishInt (c = 45) ptr left

/-- `parseMulti`; the second component is the cursor afterwards, which stays behind the `'*'` when
the count is not complete. -/
def parseMulti (buf : Bytes) (ptr : ℕ) : Except ParseFault (IntRead × ℕ) := do
  if (buf.length : ℤ) - ptr < 3 then
    return (.wait, ptr)
  let c ← readByte buf ptr
  if c ≠ 42 then
    return (.error, ptr)
  match ← getIntUntilCRLF buf (ptr + 1) (buf.length - (ptr + 1)) with
  | .ok val ptr => return (.ok val ptr, ptr)
  | stopped => return (stopped, ptr + 1)

/-- `parseStrlen`, which moves the cursor back to the `'$'` unless it answers `ok`. -/
def parseStrlen (buf : Bytes) (ptr : ℕ) : Except ParseFault IntRead := do
  if (buf.length : ℤ) - ptr < 3 then
    return .wait
  let c ← readByte buf ptr
  if c ≠ 36 then
    return .error
  getIntUntilCRLF buf (ptr + 1) (buf.length - (ptr + 1))

structure StrParsed where
  verdict : YParseResult
  ptr : ℕ
  nParamLen : ℤ
  result : Bytes
  deriving DecidableEq, Repr

def parseStrval (nParamLen : ℤ) (buf : Bytes) (ptr : ℕ) (result : Bytes) :
    Except ParseFault StrParsed := do
  if nParamLen < 0 then
    throw .assertion
  if wrap32 (buf.length - ptr) < wrap32 (nParamLen + 2) then
    return ⟨.wait, ptr, nParamLen, result⟩
  let tail := ptr + nParamLen.toNat
  let c ← readByte buf tail
  if c ≠ 13 then
    return ⟨.error, ptr, nParamLen, result⟩
  let d ← readByte buf (tail + 1)
  if d ≠ 10 then
    return ⟨.error, ptr, nParamLen, result⟩
  let payload ← copyRange buf ptr nParamLen.toNat
  return ⟨.ok, tail + 2, -1, payload⟩

def parseStr (nParamLen : ℤ) (buf : Bytes) (ptr : ℕ) (result : Bytes) :
    Except ParseFault StrParsed := do
  if nParamLen = -1 then
    match ← parseStrlen buf ptr with
    | .error => return ⟨.error, ptr, -1, result⟩
    | .wait => return ⟨.wait, ptr, -1, result⟩
    | .ok len ptr =>
      if len < -1 then
        return ⟨.error, ptr, len, result⟩
      else if len = -1 then
        return ⟨.ok, ptr, -1, []⟩
      else
        parseStrval len buf ptr result
  else
    parseStrval nParamLen buf ptr result

structure Parsed where
  verdict : YParseResult
  ptr : ℕ
  self : YProtoParse
  deriving DecidableEq, Repr

/-- `results.resize(m_nNumOfParam + 1)` where the vector is shorter than that. -/
def YProtoParse.growParams (self : YProtoParse) : YProtoParse :=
  if self.vecParams.length < self.nNumOfParam + 1 then
    { self with vecParams := resize self.vecParams (self.nNumOfParam + 1) }
  else self

/-- The members after `parseStr` has worked on slot `m_nNumOfParam`. -/
def YProtoParse.storeParam (self : YProtoParse) (r : StrParsed) : YProtoParse :=
  { self with
    nParamLen := r.nParamLen
    vecParams := self.vecParams.set self.nNumOfParam r.result }

/-- The `while` loop of `parseStrlist`. Every round that goes on raises `m_nNumOfParam` by one, so
`m_nMulti - m_nNumOfParam` bounds the rounds. -/
def strlistLoop (buf : Bytes) : ℕ → YProtoParse → ℕ → Except ParseFault Parsed
  | 0, self, ptr =>
    .ok ⟨.ok, ptr, { self with vecParams := resize self.vecParams self.nNumOfParam }⟩
  | rounds + 1, self, ptr => do
    let grown := self.growParams
    let r ← parseStr grown.nParamLen buf ptr (grown.vecParams.getD grown.nNumOfParam [])
    let stored := grown.storeParam r
    if r.verdict = .ok then
      strlistLoop buf rounds { stored with nNumOfParam := stored.nNumOfParam + 1 } r.ptr
    else
      return ⟨r.verdict, r.ptr, stored⟩

def YProtoParse.parseStrlist (self : YProtoParse) (buf : Bytes) (ptr : ℕ) :
    Except ParseFault Parsed :=
  strlistLoop buf (self.nMulti - self.nNumOfParam).toNat self ptr

def YProtoParse.parseRequest (self : YProtoParse) (buf : Bytes) (ptr : ℕ) :
    Except ParseFault Parsed := do
  if self.nMulti = -1 then
    match ← parseMulti buf ptr with
    | (.error, ptr) => return ⟨.error, ptr, self⟩
    | (.wait, ptr) => return ⟨.wait, ptr, self⟩
    | (.ok count ptr, _) =>
      let self := { self with nMulti := count }
      if count < -1 then
        return ⟨.error, ptr, self⟩
      self.parseStrlist buf ptr
  else
    self.parseStrlist buf ptr

/-- `reset`, which keeps up to three old strings. -/
def YProtoParse.reset (self : YProtoParse) : YProtoParse :=
  { nMulti := -1, nParamLen := -1, nNumOfParam := 0, vecParams := self.vecParams.take 3 }

def YProtoParse.setParams (self : YProtoParse) (p : List Bytes) : YProtoParse :=
  { self with vecParams := p }

def YProtoParse.getParams (self : YProtoParse) : List Bytes := self.vecParams

example : YProtoParse.parseRequest {} (ascii "*1\r\n$4\r\nquit\r\n") 0 =
    .ok ⟨.ok, 14, { nMulti := 1, nNumOfParam := 1, vecParams := [ascii "quit"] }⟩ := by decide

end Yedis
