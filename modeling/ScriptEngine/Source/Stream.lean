import ScriptEngine.Ledger
import ScriptEngine.Text.Lossy

namespace ScriptEngine

inductive ReadStep where
  | opening | seeking | telling | reading
deriving DecidableEq, Repr

inductive ReadError where
  | failed (step : ReadStep) (path : String)
  | tooLarge (path : String)
deriving DecidableEq, Repr

def ReadStep.message : ReadStep → String
  | .opening => "cannot open file"
  | .seeking => "cannot seek in file"
  | .telling => "cannot tell in file"
  | .reading => "cannot read data from file"

def ReadError.message : ReadError → String
  | .failed step path => step.message ++ ": '" ++ path ++ "'"
  | .tooLarge path => "cannot allocate storage for file contents: '" ++ path ++ "'"

/-- What can be positioned and read. An operation that fails ends the reading; one that succeeds
gives the reader as it is afterwards. A read gives at most the bytes that are wanted, and none at
the end; one that is interrupted is made again and counts once. -/
class Reader (ρ : Type) where
  seekEnd : ρ → Option ρ
  tell : ρ → Option (Nat × ρ)
  seekStart : ρ → Option ρ
  read : Nat → ρ → Option (List UInt8 × ρ)
  length_read : ∀ {wanted got r r'}, read wanted r = some (got, r') → got.length ≤ wanted

def Reader.readExact {ρ : Type} [Reader ρ] (wanted : Nat) (r : ρ) : Option (List UInt8) :=
  if _h : wanted = 0 then some []
  else match read wanted r with
    | none | some ([], _) => none
    | some (b :: got, r) => (readExact (wanted - (got.length + 1)) r).map (b :: got ++ ·)
termination_by wanted
decreasing_by omega

inductive StreamFault where
  | seekEnd | tell | seekStart | storage | read
deriving DecidableEq, Repr

/-- A stream of bytes: what is left to be read, what it says its length is, how many bytes one read
gives at most, and the step that fails on it. -/
structure Stream where
  bytes : List UInt8
  length : Nat
  chunk : Option Nat
  fault : Option StreamFault
deriving DecidableEq, Repr

namespace Stream

def ofBytes (bytes : List UInt8) : Stream :=
  ⟨bytes, bytes.length, none, none⟩

def allowing (fault : StreamFault) (a : α) (s : Stream) : Option α :=
  if s.fault = some fault then none else some a

def portion (wanted : Nat) (s : Stream) : List UInt8 :=
  s.bytes.take (min wanted (s.chunk.getD wanted))

theorem length_portion_le (wanted : Nat) (s : Stream) : (s.portion wanted).length ≤ wanted := by
  simp only [portion, List.length_take]
  omega

instance : Reader Stream where
  seekEnd s := s.allowing .seekEnd s
  tell s := s.allowing .tell (s.length, s)
  seekStart s := s.allowing .seekStart s
  read wanted s :=
    let got := s.portion wanted
    s.allowing .read (got, { s with bytes := s.bytes.drop got.length })
  length_read {wanted got s s'} h := by
    simp only [allowing] at h
    split at h
    · cases h
    · cases h
      exact length_portion_le wanted s

def storageLimit : Nat := 0x7FFFFFFFFFFFFFFF

def storage (s : Stream) (size : Nat) : Bool :=
  size ≤ storageLimit && s.fault ≠ some .storage

end Stream

/-- The whole contents of a source. The file that they came from stays open as long as they are
held. -/
structure SourceBuffer where
  bytes : List UInt8
deriving DecidableEq, Repr

namespace SourceBuffer

def text (b : SourceBuffer) : String :=
  Text.ofBytes b.bytes

def readFrom {ρ : Type} [Reader ρ] (storage : Nat → Bool) (name : String) (r : ρ) (l : Ledger) :
    Except ReadError SourceBuffer × Ledger :=
  let opened := l.acquire .fileHandle
  let closed := opened.release .fileHandle
  match Reader.seekEnd r with
  | none => (.error (.failed .seeking name), closed)
  | some r =>
    match Reader.tell r with
    | none => (.error (.failed .telling name), closed)
    | some (length, r) =>
      match Reader.seekStart r with
      | none => (.error (.failed .seeking name), closed)
      | some r =>
        if storage (length + 1) then
          let stored := opened.acquire .sourceBuffer
          match Reader.readExact length r with
          | none =>
            (.error (.failed .reading name), (stored.release .sourceBuffer).release .fileHandle)
          | some bytes => (.ok ⟨bytes⟩, stored)
        else (.error (.tooLarge name), closed)

def read (name : String) (s : Stream) (l : Ledger) : Except ReadError SourceBuffer × Ledger :=
  readFrom s.storage name s l

def release (l : Ledger) : Ledger :=
  (l.release .fileHandle).release .sourceBuffer

def ofFile (path : String) (file : Option Stream) (l : Ledger) :
    Except ReadError SourceBuffer × Ledger :=
  match file with
  | none => (.error (.failed .opening path), l)
  | some s => read path s l

end SourceBuffer

end ScriptEngine
