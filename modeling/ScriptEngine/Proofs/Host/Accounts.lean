import ScriptEngine.Proofs.Host.Entry
import ScriptEngine.Proofs.Machine.Aside

namespace ScriptEngine

open Engine

namespace Ledger

def closing (n : Nat) (l : Ledger) : Ledger :=
  { l with filesClosed := l.filesClosed + n }

theorem held_closing (n : Nat) (l : Ledger) (r : Resource) : (l.closing n).held r = l.held r := by
  cases r <;> rfl

end Ledger

section Reading

variable {ρ : Type} [Reader ρ] {storage : Nat → Bool} {name : String} {r : ρ} {l l' : Ledger} {wanted : Nat}
  {bytes : List UInt8} {error : ReadError} {buffer : SourceBuffer}

inductive Reader.Delivers : Nat → ρ → List UInt8 → Prop
  | done (r : ρ) : Delivers 0 r []
  | portion {wanted : Nat} {got rest : List UInt8} {r r' : ρ} : got ≠ [] → Reader.read wanted r = some (got, r') →
      Delivers (wanted - got.length) r' rest → Delivers wanted r (got ++ rest)

def Reader.Contains (r : ρ) (bytes : List UInt8) : Prop :=
  ∃ r₁ length r₂ r₃, Reader.seekEnd r = some r₁ ∧ Reader.tell r₁ = some (length, r₂) ∧ Reader.seekStart r₂ = some r₃ ∧
    bytes.length = length ∧ Reader.Delivers length r₃ bytes

theorem Reader.Delivers.length_eq (h : Delivers wanted r bytes) : bytes.length = wanted := by
  induction h with
  | done => rfl
  | portion _ hread _ ih =>
    have hle := Reader.length_read hread
    rw [List.length_append, ih]
    omega

theorem Reader.readExact_delivers (h : Reader.readExact wanted r = some bytes) : Reader.Delivers wanted r bytes := by
  fun_induction Reader.readExact wanted r generalizing bytes with
  | case1 r =>
    cases h
    exact .done r
  | case2 => cases h
  | case3 => cases h
  | case4 wanted r hpos b got r' hread ih =>
    obtain ⟨rest, hrest, rfl⟩ := Option.map_eq_some_iff.mp h
    exact .portion (List.cons_ne_nil b got) hread (ih hrest)

theorem readFrom_error (h : SourceBuffer.readFrom storage name r l = (.error error, l')) : l' = l.closing 1 := by
  unfold SourceBuffer.readFrom at h
  repeat' split at h
  all_goals cases h
  all_goals rfl

theorem readFrom_ok (h : SourceBuffer.readFrom storage name r l = (.ok buffer, l')) :
    l' = (l.acquire .fileHandle).acquire .sourceBuffer ∧ Reader.Contains r buffer.bytes := by
  simp only [SourceBuffer.readFrom] at h
  cases hend : Reader.seekEnd r with
  | none =>
    rw [hend] at h
    cases h
  | some r₁ =>
    simp only [hend] at h
    cases htell : Reader.tell r₁ with
    | none =>
      rw [htell] at h
      cases h
    | some told =>
      obtain ⟨length, r₂⟩ := told
      simp only [htell] at h
      cases hstart : Reader.seekStart r₂ with
      | none =>
        rw [hstart] at h
        cases h
      | some r₃ =>
        simp only [hstart] at h
        split at h
        · split at h
          · cases h
          · rename_i bytes hread
            cases h
            have hdelivers := Reader.readExact_delivers hread
            exact ⟨rfl, r₁, length, r₂, r₃, hend, htell, hstart, hdelivers.length_eq, hdelivers⟩
        · cases h

theorem Stream.allowed {α : Type} {fault : StreamFault} {a b : α} {s : Stream}
    (h : s.allowing fault a = some b) : b = a := by
  simp only [Stream.allowing] at h
  split at h
  · cases h
  · exact (Option.some.inj h).symm

theorem Stream.take_of_delivers {s : Stream} (h : Reader.Delivers wanted s bytes) : bytes = s.bytes.take wanted := by
  induction h with
  | done => rfl
  | @portion wanted got rest s s' hne hread _ ih =>
    have hle := Reader.length_read hread
    obtain ⟨rfl, rfl⟩ := Prod.mk.inj (Stream.allowed hread)
    have hgot : s.portion wanted = s.bytes.take (s.portion wanted).length := by
      simp [Stream.portion]
    have hsum : wanted = (s.portion wanted).length + (wanted - (s.portion wanted).length) := by omega
    calc s.portion wanted ++ rest
        = s.bytes.take (s.portion wanted).length ++
            (s.bytes.drop (s.portion wanted).length).take (wanted - (s.portion wanted).length) := by rw [ih, ← hgot]
      _ = s.bytes.take wanted := by rw [← List.take_add, ← hsum]

theorem Stream.take_of_contains {s : Stream} (h : Reader.Contains s bytes) : bytes = s.bytes.take s.length := by
  obtain ⟨s₁, length, s₂, s₃, hend, htell, hstart, -, hdelivers⟩ := h
  obtain rfl := Stream.allowed hend
  obtain ⟨rfl, rfl⟩ := Prod.mk.inj (Stream.allowed htell)
  obtain rfl := Stream.allowed hstart
  exact Stream.take_of_delivers hdelivers

end Reading

namespace Loading

def files : Loading → Nat
  | .text _ _ _ | .file _ none => 0
  | .file _ (some _) => 1

def opened (scopes : Nat) (e : Engine) (l : Loading) : Nat :=
  if e.limits.tryLimit ≤ e.frames.length + scopes then 0 else l.files

end Loading

namespace Engine

variable {path : String} {file : Option Stream} {buffer : SourceBuffer} {error : Error} {e e₁ : Engine}

theorem readFile_eq (path : String) (file : Option Stream) (e : Engine) : readFile path file e =
    match SourceBuffer.ofFile path file e.ledger with
    | (.ok buffer, ledger) => .ok buffer { e with ledger }
    | (.error error, ledger) => .error (.reading error) { e with ledger } := by
  simp only [readFile, get_bind]
  obtain ⟨read, ledger⟩ := SourceBuffer.ofFile path file e.ledger
  cases read <;> rfl

theorem readFile_ok (h : readFile path file e = .ok buffer e₁) :
    file.isSome ∧ e₁.ledger = (e.ledger.acquire .fileHandle).acquire .sourceBuffer := by
  rw [readFile_eq] at h
  cases file with
  | none => cases h
  | some s =>
    simp only [SourceBuffer.ofFile, SourceBuffer.read] at h
    split at h
    · rename_i hread
      cases h
      exact ⟨rfl, (readFrom_ok hread).1⟩
    · cases h

theorem readFile_error (h : readFile path file e = .error error e₁) :
    e₁.ledger = e.ledger.closing (Loading.files (.file path file)) := by
  rw [readFile_eq] at h
  cases file with
  | none =>
    cases h
    rfl
  | some s =>
    simp only [SourceBuffer.ofFile, SourceBuffer.read] at h
    split at h
    · cases h
    · rename_i hread
      cases h
      exact readFrom_error hread

theorem load_ledger (name source : String) (mode : LoadMode) (e : Engine) :
    (stateOf (load name source mode e)).ledger = e.ledger :=
  (tally_eq.mp ((load_detached name source mode).tally e)).1

theorem loadBuffer_ledger (path : String) (buffer : SourceBuffer) (e : Engine) :
    (stateOf (loadBuffer path buffer e)).ledger = SourceBuffer.release e.ledger := by
  have hload := load_ledger path buffer.text .program e
  simp only [loadBuffer]
  cases hl : load path buffer.text .program e <;>
  · rw [hl] at hload
    exact congrArg SourceBuffer.release hload

theorem readAndLoad_ledger (path : String) (file : Option Stream) (e : Engine) :
    (stateOf ((readFile path file >>= loadBuffer path) e)).ledger =
      e.ledger.closing (Loading.files (.file path file)) := by
  cases hr : readFile path file e with
  | error error e₁ =>
    rw [bind_of_error hr]
    exact readFile_error hr
  | ok buffer e₁ =>
    obtain ⟨hsome, hledger⟩ := readFile_ok hr
    obtain ⟨s, rfl⟩ := Option.isSome_iff_exists.mp hsome
    rw [bind_of_ok hr, loadBuffer_ledger, hledger]
    rfl

theorem beginProtected_room (e : Engine) :
    Ensures beginProtected
      (fun _ e₁ => ¬ e.limits.tryLimit ≤ e.frames.length ∧ e₁.limits = e.limits ∧
        e₁.frames.length = e.frames.length + 1)
      (fun _ _ => e.limits.tryLimit ≤ e.frames.length) e := by
  simp only [Ensures, beginProtected, enterProtected_eq]
  by_cases hfull : e.limits.tryLimit ≤ e.frames.length
  · rw [if_pos hfull]
    exact hfull
  · rw [if_neg hfull]
    exact ⟨hfull, rfl, rfl⟩

theorem protect_ledger {α : Type} {body : EngineM α} {n : Nat}
    (hb : ∀ id e₁, beginProtected e = .ok id e₁ → (stateOf (body e₁)).ledger = e₁.ledger.closing n) :
    (stateOf (protect body e)).ledger = e.ledger.closing (if e.limits.tryLimit ≤ e.frames.length then 0 else n) := by
  simp only [protect]
  cases hbegin : beginProtected e with
  | error error e₁ =>
    rw [if_pos ((beginProtected_room e).error hbegin)]
    exact (tally_eq.mp (beginProtected_detached.tally_error hbegin)).1
  | ok id e₁ =>
    have hended := (tally_eq.mp (endProtected_tally id (body e₁))).1
    rw [if_neg ((beginProtected_room e).ok hbegin).1]
    refine hended.trans ((hb id e₁ hbegin).trans ?_)
    rw [(tally_eq.mp (beginProtected_detached.tally_ok hbegin)).1]

end Engine

namespace Loading

theorem load_ledger (l : Loading) (e : Engine) : (stateOf (l.load e)).ledger = e.ledger.closing (l.opened 0 e) := by
  cases l with
  | text name source mode =>
    refine (Engine.load_ledger name source mode e).trans ?_
    simp [opened, files, Ledger.closing]
  | file path file =>
    have hcarried := carried_tally (protect (readFile path file >>= loadBuffer path) e)
    refine (tally_eq.mp hcarried).1.trans ?_
    exact protect_ledger fun id e₁ _ => readAndLoad_ledger path file e₁

theorem opened_begun (l : Loading) {e e₁ : Engine} {id : ScopeId} (hb : beginProtected e = .ok id e₁) :
    l.opened 0 e₁ = l.opened 1 e := by
  obtain ⟨-, hlimits, hframes⟩ := (beginProtected_room e).ok hb
  simp only [opened, hlimits, hframes, Nat.add_zero]

theorem opened_full (l : Loading) {e : Engine} (hfull : e.limits.tryLimit ≤ e.frames.length) : l.opened 1 e = 0 :=
  if_pos (Nat.le_succ_of_le hfull)

theorem begun_ledger (l : Loading) {e e₁ : Engine} {id : ScopeId} (hb : beginProtected e = .ok id e₁) :
    (stateOf (l.load e₁)).ledger = e.ledger.closing (l.opened 1 e) := by
  rw [l.load_ledger, l.opened_begun hb, (tally_eq.mp (beginProtected_detached.tally_ok hb)).1]

theorem steps_ledger (l : Loading) {e e₁ : Engine} {id : ScopeId} (hb : beginProtected e = .ok id e₁) (k : Nat) :
    (Machine.step^[k] (.ofLoaded (l.load e₁))).engine.ledger = e.ledger.closing (l.opened 1 e) := by
  have hstart : Machine.Tallies (stateOf (l.load e₁)).ledger (stateOf (l.load e₁)).loops (.ofLoaded (l.load e₁)) := by
    cases l.load e₁ <;> rfl
  rw [← l.begun_ledger hb]
  exact (tally_eq.mp (hstart.steps k)).1

theorem evaluate_ledger (l : Loading) {e : Engine} {fuel : Nat} {r : EStateM.Result Error Engine Value}
    (hr : e.evaluate fuel l.load = some r) : (stateOf r).ledger = e.ledger.closing (l.opened 1 e) := by
  rw [evaluate_eq] at hr
  cases hb : beginProtected e with
  | error error e₁ =>
    rw [hb] at hr
    cases hr
    rw [l.opened_full ((beginProtected_room e).error hb)]
    exact (tally_eq.mp (beginProtected_detached.tally_error hb)).1
  | ok id e₁ =>
    rw [hb] at hr
    obtain ⟨r', hrun, rfl⟩ := Option.map_eq_some_iff.mp hr
    rw [Machine.run_eq_result] at hrun
    rw [(tally_eq.mp (endProtected_tally id r')).1, Session.engine_of_result hrun]
    exact l.steps_ledger hb fuel

theorem runLoaded_ledger (l : Loading) {e e' : Engine} {fuel : Nat} {b : Bool}
    (hr : e.runLoaded fuel l.load = some (b, e')) : e'.ledger = e.ledger.closing (l.opened 1 e) := by
  obtain ⟨r, hr, hend⟩ := Option.map_eq_some_iff.mp hr
  rw [← l.evaluate_ledger hr]
  cases r <;>
  · cases hend
    rfl

theorem tryLoading_ledger (l : Loading) (e : Engine) :
    (tryLoading l.load e).2.ledger = e.ledger.closing (l.opened 1 e) := by
  have hbody (id : ScopeId) (e₁ : Engine) (hb : beginProtected e = .ok id e₁) :
      (stateOf ((l.load >>= push) e₁)).ledger = e₁.ledger.closing (l.opened 1 e) := by
    have hload := l.begun_ledger hb
    rw [← (tally_eq.mp (beginProtected_detached.tally_ok hb)).1] at hload
    cases hl : l.load e₁ with
    | error error e₂ =>
      rw [hl] at hload
      rwa [bind_of_error hl]
    | ok v e₂ =>
      rw [hl] at hload
      rw [bind_of_ok hl, (tally_eq.mp ((push_detached v).tally e₂)).1]
      exact hload
  have hprotect := protect_ledger hbody
  have hopened : (if e.limits.tryLimit ≤ e.frames.length then 0 else l.opened 1 e) = l.opened 1 e := by
    split
    · rename_i hfull
      exact (l.opened_full hfull).symm
    · rfl
  rw [hopened] at hprotect
  rw [← hprotect]
  simp only [tryLoading]
  cases protect (l.load >>= push) e <;> rfl

end Loading

theorem Engine.evalLine_ledger {e e' : Engine} {fuel : Nat} {line : String} {answer : Except String String}
    (hr : e.evalLine fuel line = some (answer, e')) : e'.ledger = e.ledger := by
  obtain ⟨r, hr, hend⟩ := Option.map_eq_some_iff.mp hr
  have hledger := Loading.evaluate_ledger (.text "[stdin]" line .program) hr
  have hnone : Loading.opened 1 e (.text "[stdin]" line .program) = 0 := by
    simp [Loading.opened, Loading.files]
  rw [hnone] at hledger
  refine Eq.trans ?_ hledger
  cases r with
  | error error e₁ =>
    cases hend
    rfl
  | ok v e₁ =>
    cases v <;>
    · cases hend
      rfl

namespace Host

variable {κ χ : Type} {handlers : Handlers κ χ} {h : Host κ χ}

/-- From the books `l` on: they are exact, or the host's own handler found them so and has left
them as they are now. -/
def Settles (handlers : Handlers κ χ) (h : Host κ χ) (l l' : Ledger) : Prop :=
  l' = l ∨ ∃ k asked after, h.handler = some k ∧ asked.engine.ledger = l ∧ handlers k asked = some after ∧
    l' = after.engine.ledger

theorem throw_settles {error : Error} {p : Error × Host κ χ} (hp : throw handlers error h = some p) :
    Settles handlers h h.engine.ledger p.2.engine.ledger := by
  have hvalue := (tally_eq.mp (tally_of_aside h.engine fun books count => exceptionValue_aside books count error _)).1
  simp only [throw] at hp
  split at hp
  · cases hp
    exact .inl rfl
  · obtain ⟨after, hpanic, rfl⟩ := Option.map_eq_some_iff.mp hp
    cases hh : h.handler with
    | none =>
      simp only [panic, hh] at hpanic
      cases hpanic
      exact .inl hvalue
    | some k =>
      simp only [panic, hh] at hpanic
      exact .inr ⟨k, _, after, hh, hvalue, hpanic, rfl⟩

theorem surface_settles {α : Type} {r : EStateM.Result Error Engine α} {o : Outcome κ χ α}
    (ho : surface handlers h r = some o) : Settles handlers h (stateOf r).ledger (stateOf o).engine.ledger := by
  cases r with
  | ok a e =>
    cases ho
    exact .inl rfl
  | error error e =>
    obtain ⟨p, hp, rfl⟩ := Option.map_eq_some_iff.mp ho
    exact throw_settles hp

end Host

open Host

def Loading.onHost {κ χ : Type} (handlers : Handlers κ χ) (h : Host κ χ) : Loading → Option (Outcome κ χ Value)
  | .text name source mode => Host.load handlers name source mode h
  | .file path stream => Host.loadFile handlers path stream h

/-- The books after a script was loaded, in each of the ways that there are, and at every step of a
script that is run. -/
structure Loading.Exact (l : Loading) (e : Engine) : Prop where
  loaded : (stateOf (l.load e)).ledger = e.ledger.closing (l.opened 0 e)
  tried : (tryLoading l.load e).2.ledger = e.ledger.closing (l.opened 1 e)
  ran : ∀ fuel went e', e.runLoaded fuel l.load = some (went, e') → e'.ledger = e.ledger.closing (l.opened 1 e)
  running : ∀ id e₁, beginProtected e = .ok id e₁ → ∀ k resource,
    (Machine.step^[k] (.ofLoaded (l.load e₁))).engine.ledger.held resource = e.ledger.held resource
  surfaced : ∀ {κ χ : Type} (handlers : Handlers κ χ) (h : Host κ χ) o, h.engine = e → l.onHost handlers h = some o →
    Settles handlers h (e.ledger.closing (l.opened 0 e)) (stateOf o).engine.ledger

def Reader.Exact {ρ : Type} [Reader ρ] (r : ρ) (l : Ledger) : Except ReadError SourceBuffer × Ledger → Prop
  | (.error _, l') => l' = l.closing 1
  | (.ok buffer, l') => l' = (l.acquire .fileHandle).acquire .sourceBuffer ∧ SourceBuffer.release l' = l.closing 1 ∧
      Reader.Contains r buffer.bytes

/-- No counter that is counted down is at zero: when something is given back at once, when a buffer
cannot be filled, when a tree has been compiled and when a buffer has been loaded. -/
structure Engine.Unsaturated (e : Engine) : Prop where
  returned : ∀ resource, 0 < (e.ledger.acquire resource).held resource
  unfilled : let stored := (e.ledger.acquire .fileHandle).acquire .sourceBuffer
    0 < stored.held .sourceBuffer ∧ 0 < (stored.release .sourceBuffer).held .fileHandle
  compiled : ∀ name source tree held, SyntaxTree.acquire name source e.ledger = (.ok tree, held) →
    0 < held.held .syntaxTree
  loaded : ∀ path file buffer e₁, readFile path file e = .ok buffer e₁ →
    let held := (stateOf (Engine.load path buffer.text .program e₁)).ledger
    0 < held.held .fileHandle ∧ 0 < (held.release .fileHandle).held .sourceBuffer

theorem Loading.exact (l : Loading) (e : Engine) : l.Exact e where
  loaded := l.load_ledger e
  tried := l.tryLoading_ledger e
  ran _ _ _ hr := l.runLoaded_ledger hr
  running id e₁ hb k resource := by rw [l.steps_ledger hb k, Ledger.held_closing]
  surfaced handlers h o he ho := by
    subst he
    rw [← l.load_ledger]
    cases l <;> exact surface_settles ho

theorem Engine.unsaturated (e : Engine) : e.Unsaturated where
  returned resource := by cases resource <;> exact Nat.succ_pos _
  unfilled := ⟨Nat.succ_pos _, Nat.succ_pos _⟩
  compiled name source tree held h := by
    simp only [SyntaxTree.acquire] at h
    split at h
    · cases h
      exact Nat.succ_pos _
    · cases h
  loaded path file buffer e₁ h := by
    rw [load_ledger, (readFile_ok h).2]
    exact ⟨Nat.succ_pos _, Nat.succ_pos _⟩

theorem Reader.exact {ρ : Type} [Reader ρ] (storage : Nat → Bool) (name : String) (r : ρ) (l : Ledger) :
    Reader.Exact r l (SourceBuffer.readFrom storage name r l) := by
  cases hr : SourceBuffer.readFrom storage name r l with
  | mk read l' =>
    cases read with
    | error error => exact readFrom_error hr
    | ok buffer =>
      obtain ⟨rfl, hc⟩ := readFrom_ok hr
      exact ⟨rfl, rfl, hc⟩

theorem accounts_exact (e : Engine) :
    (∀ l : Loading, l.Exact e) ∧
    (∀ fuel line answer e', e.evalLine fuel line = some (answer, e') → e'.ledger = e.ledger) ∧
    (∀ (ρ : Type) [Reader ρ] (storage : Nat → Bool) (name : String) (r : ρ),
      Reader.Exact r e.ledger (SourceBuffer.readFrom storage name r e.ledger)) ∧
    (∀ name s buffer l, SourceBuffer.read name s e.ledger = (.ok buffer, l) → buffer.bytes = s.bytes.take s.length) ∧
    e.Unsaturated :=
  ⟨fun l => l.exact e, fun _ _ _ _ hr => evalLine_ledger hr,
    fun _ _ storage name r => Reader.exact storage name r e.ledger,
    fun _ _ _ _ hr => Stream.take_of_contains (readFrom_ok hr).2, e.unsaturated⟩

end ScriptEngine
