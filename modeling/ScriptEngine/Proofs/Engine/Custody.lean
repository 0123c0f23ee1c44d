import ScriptEngine.Proofs.Engine.Endurance
import ScriptEngine.Proofs.Heap.Currency

/-!
A watch over the handles that an instance holds. All that it reads through them, makes and writes leads
to such handles only, so that values can be kept from one step to the next as long as nothing is
collected.
-/

namespace ScriptEngine

namespace Engine

variable {held held' : Handle → Prop} {e : Engine} {v : Value}

structure Among (held : Handle → Prop) (e : Engine) : Prop where
  global : held e.global
  globalEnv : held e.globalEnv
  env : held e.env
  scopes : ∀ a ∈ e.scopes.toList, held a
  frames : ∀ f ∈ e.frames, held f.env
  stack : ∀ v ∈ e.stack.toList, v.Among held

namespace Among

theorem mono (h : e.Among held) (hm : ∀ a, held a → held' a) : e.Among held' :=
  ⟨hm _ h.global, hm _ h.globalEnv, hm _ h.env, fun a ha => hm a (h.scopes a ha), fun f hf => hm _ (h.frames f hf),
    fun v hv => (h.stack v hv).mono hm⟩

theorem iff_roots : e.Among held ↔ ∀ a ∈ e.roots.tail, held a := by
  simp only [Engine.roots, List.cons_append, List.tail_cons, List.nil_append, List.mem_cons, List.mem_append,
    List.mem_map, List.mem_filterMap]
  constructor
  · rintro h a (rfl | rfl | rfl | (ha | ⟨f, hf, rfl⟩) | ⟨v, hv, ha⟩)
    · exact h.global
    · exact h.globalEnv
    · exact h.env
    · exact h.scopes a ha
    · exact h.frames f hf
    · exact h.stack v hv a ha
  · intro h
    refine ⟨h _ (.inl rfl), h _ (.inr (.inl rfl)), h _ (.inr (.inr (.inl rfl))), fun a ha => ?_, fun f hf => ?_,
      fun v hv a ha => ?_⟩
    · exact h a (.inr (.inr (.inr (.inl (.inl ha)))))
    · exact h _ (.inr (.inr (.inr (.inl (.inr ⟨f, hf, rfl⟩)))))
    · exact h a (.inr (.inr (.inr (.inr ⟨v, hv, ha⟩))))

theorem withStack {stack : Array Value} (h : e.Among held)
    (hs : ∀ v ∈ stack.toList, v ∈ e.stack.toList ∨ v.Among held) : Among held { e with stack } :=
  { h with stack := fun v hv => (hs v hv).elim (h.stack v) id }

theorem push (h : e.Among held) (hv : v.Among held) : Among held { e with stack := e.stack.push v } := by
  refine h.withStack fun w hw => ?_
  simp only [Array.toList_push, List.mem_append, List.mem_singleton] at hw
  rcases hw with hw | rfl
  · exact .inl hw
  · exact .inr hv

theorem pop (h : e.Among held) : Among held { e with stack := e.stack.pop } := by
  refine h.withStack fun w hw => .inl ?_
  rw [Array.toList_pop] at hw
  exact List.dropLast_subset _ hw

theorem cutStack (h : e.Among held) (depth : Nat) : (e.cutStack depth).Among held := by
  refine h.withStack fun w hw => .inl ?_
  rw [Array.toList_shrink] at hw
  exact List.take_subset _ _ hw

theorem back (h : e.Among held) (hb : e.stack.back? = some v) : v.Among held := by
  refine h.stack v ?_
  rw [← Array.getLast?_toList] at hb
  exact List.mem_of_getLast? hb

theorem getD (h : e.Among held) (i : Nat) : (e.stack[i]?.getD .undefined).Among held := by
  cases hi : e.stack[i]? with
  | none => exact Value.among_of_plain rfl
  | some v => exact h.stack v (Array.mem_toList_iff.mpr (Array.mem_of_getElem? hi))

theorem shrinkScopes {env : Handle} (h : e.Among held) (henv : held env) (depth : Nat) :
    Among held { e with env, scopes := e.scopes.shrink depth } := by
  refine { h with env := henv, scopes := fun a ha => ?_ }
  have hcut : a ∈ (e.scopes.shrink depth).toList := ha
  rw [Array.toList_shrink] at hcut
  exact h.scopes a (List.take_subset _ _ hcut)

theorem cutScopes (h : e.Among held) (depth : Nat) : (e.cutScopes depth).Among held := by
  refine h.shrinkScopes ?_ depth
  cases hs : e.scopes[depth]? with
  | none => exact h.env
  | some a => exact h.scopes a (Array.mem_toList_iff.mpr (Array.mem_of_getElem? hs))

theorem enterScope {env : Handle} (h : e.Among held) (henv : held env) : (e.enterScope env).Among held := by
  refine { h with env := henv, scopes := fun a ha => ?_ }
  have hpushed : a ∈ (e.scopes.push e.env).toList := ha
  simp only [Array.toList_push, List.mem_append, List.mem_singleton] at hpushed
  rcases hpushed with ha | rfl
  · exact h.scopes a ha
  · exact h.env

theorem leaveScope (h : e.Among held) : e.leaveScope.Among held := by
  simp only [Engine.leaveScope]
  cases hb : e.scopes.back? with
  | none => exact h
  | some env =>
    refine { h with env := ?_, scopes := fun a ha => ?_ }
    · rw [← Array.getLast?_toList] at hb
      exact h.scopes env (List.mem_of_getLast? hb)
    · have hpopped : a ∈ e.scopes.pop.toList := ha
      rw [Array.toList_pop] at hpopped
      exact h.scopes a (List.dropLast_subset _ hpopped)

end Among

end Engine

section Texts

theorem Diagnostic.render_inFile (d : Diagnostic) (file : String) : (d.inFile file).render ≠ "" := by
  have hplace : Diagnostic.place (some file) d.span ≠ "" := by
    cases d.span <;> exact append_ne_of_right (by decide)
  exact append_ne_of_left (append_ne_of_left hplace)

theorem ReadError.message_ne (e : ReadError) : e.message ≠ "" := by
  cases e <;> exact append_ne_of_right (by decide)

theorem acquire_error {name source : String} {l : Ledger} {d : Diagnostic}
    (h : (SyntaxTree.acquire name source l).1 = .error d) : d.render ≠ "" := by
  simp only [SyntaxTree.acquire] at h
  split at h
  · cases h
  · cases h
    exact Diagnostic.render_inFile _ name

theorem compile_error {tree : SyntaxTree} {strict : Bool} {d : Diagnostic} (h : tree.compile strict = .error d) :
    d.render ≠ "" := by
  simp only [SyntaxTree.compile] at h
  split at h
  · cases h
  · cases h
    exact Diagnostic.render_inFile _ tree.name

end Texts

/-- A watch over instances: the handles that such an instance may hold, what may become of its heap in a
step, and the errors that may be on their way. -/
structure Custody where
  Keeps : Engine → Prop
  held : Heap → Handle → Prop
  Guards : Heap → Heap → Prop
  Tells : Heap → Error → Prop
  -- What is read through a handle that is held is held as well.
  closed : ∀ h : Heap, h.Closed (held h)
  among : ∀ {e}, Keeps e → e.Among (held e.heap)
  -- A step may do as it likes with the rest of the instance, but not with the registry or the keys.
  next : ∀ {e e' : Engine}, Keeps e → e'.registry = e.registry → e'.nextRef = e.nextRef → Guards e.heap e'.heap →
    e'.Among (held e'.heap) → Keeps e'
  refl : ∀ {e}, Keeps e → Guards e.heap e.heap
  trans : ∀ {h h' h''}, Guards h h' → Guards h' h'' → Guards h h''
  mono : ∀ {h h' a}, Guards h h' → held h a → held h' a
  alloc : ∀ {e} {cell : Cell}, Keeps e → (∀ b ∈ cell.links, held e.heap b) →
    Guards e.heap (e.heap.alloc cell).2 ∧ held (e.heap.alloc cell).2 (e.heap.alloc cell).1
  puts : ∀ {e v h}, Keeps e → e.heap.Puts (held e.heap) v h → v.Among (held e.heap) → Guards e.heap h
  -- An error that is only described shows nothing of the heap.
  described : ∀ {h error name message}, error.carried? = none → error.description? = some (name, message) →
    message ≠ "" → error.text = name.text ++ ": " ++ message → Tells h error
  thrown : ∀ {h : Heap} {v}, v.Among (held h) → Tells h (.thrown v (h.display v))

namespace Custody

open Engine

variable {α β : Type} {e e' : Engine} {v : Value} {error : Error}

section Definitions

variable (C : Custody)

def Has (v : Value) (h : Heap) : Prop := v.Among (C.held h)

def Kept (h : Heap) (V : α → Heap → Prop) : EStateM.Result Error Engine α → Prop
  | .ok a e => C.Keeps e ∧ C.Guards h e.heap ∧ V a e.heap
  | .error error e => C.Keeps e ∧ C.Guards h e.heap ∧ C.Tells e.heap error

def Holding (V : α → Heap → Prop) (x : EngineM α) (e : Engine) : Prop :=
  C.Kept e.heap V (x e)

end Definitions

section States

variable (C : Custody)

theorem has_mono {h h' : Heap} (hg : C.Guards h h') (hv : C.Has v h) : C.Has v h' :=
  hv.mono fun _ => C.mono hg

theorem quiet (h : C.Keeps e) (hr : e'.registry = e.registry) (hn : e'.nextRef = e.nextRef) (hh : e'.heap = e.heap)
    (ha : e'.Among (C.held e.heap)) : C.Keeps e' :=
  C.next h hr hn (hh.symm ▸ C.refl h) (hh.symm ▸ ha)

theorem withHeap {heap : Heap} (h : C.Keeps e) (hg : C.Guards e.heap heap) : C.Keeps { e with heap } :=
  C.next h rfl rfl hg { (C.among h).mono fun _ => C.mono hg with }

theorem tells_fault {h : Heap} {f : Fault} (hf : f.message ≠ "") : C.Tells h (.fault f) :=
  C.described rfl rfl hf rfl

theorem tells_unbalanced {h : Heap} : C.Tells h .unbalancedScope :=
  C.described rfl rfl (by decide) rfl

theorem environment {outer : Handle} (h : C.Keeps e) (ho : C.held e.heap outer) :
    C.Guards e.heap (Environment.alloc e.heap none (some outer)).2 ∧
      C.held (Environment.alloc e.heap none (some outer)).2 (Environment.alloc e.heap none (some outer)).1 := by
  obtain ⟨hg, hnames⟩ : C.Guards e.heap (e.heap.allocObject (.of .plain)).2 ∧
      C.held (e.heap.allocObject (.of .plain)).2 (e.heap.allocObject (.of .plain)).1 :=
    C.alloc h fun _ hb => by cases hb
  have hlinks : ∀ b ∈ (Cell.environment ⟨(e.heap.allocObject (.of .plain)).1, some outer⟩).links,
      C.held (e.heap.allocObject (.of .plain)).2 b := by
    intro b hb
    rcases List.mem_cons.mp hb with rfl | hb
    · exact hnames
    · obtain rfl := List.mem_singleton.mp hb
      exact C.mono hg ho
  obtain ⟨hg', hnew⟩ := C.alloc (C.withHeap h hg) hlinks
  exact ⟨C.trans hg hg', hnew⟩

end States

namespace Kept

variable {C : Custody} {V : α → Heap → Prop} {h h' : Heap} {r : EStateM.Result Error Engine α}

theorem returned {a : α} (hr : C.Kept h V r) (hx : r = .ok a e) : C.Keeps e ∧ C.Guards h e.heap ∧ V a e.heap := by
  subst hx
  exact hr

theorem failed (hr : C.Kept h V r) (hx : r = .error error e) :
    C.Keeps e ∧ C.Guards h e.heap ∧ C.Tells e.heap error := by
  subst hx
  exact hr

theorem since (hr : C.Kept h' V r) (hg : C.Guards h h') : C.Kept h V r := by
  cases r with
  | ok a e => exact ⟨hr.1, C.trans hg hr.2.1, hr.2.2⟩
  | error error e => exact ⟨hr.1, C.trans hg hr.2.1, hr.2.2⟩

theorem state (hr : C.Kept h V r) : C.Keeps (stateOf r) ∧ C.Guards h (stateOf r).heap := by
  cases r with
  | ok a e => exact ⟨hr.1, hr.2.1⟩
  | error error e => exact ⟨hr.1, hr.2.1⟩

end Kept

namespace Holding

variable {C : Custody} {V : α → Heap → Prop} {W : β → Heap → Prop} {x : EngineM α}

theorem pure {a : α} (h : C.Keeps e) (hv : V a e.heap) : C.Holding V (Pure.pure a) e :=
  ⟨h, C.refl h, hv⟩

theorem throw (h : C.Keeps e) (ht : C.Tells e.heap error) : C.Holding V (MonadExcept.throw error) e :=
  ⟨h, C.refl h, ht⟩

theorem fault {f : Fault} (h : C.Keeps e) (hf : f.message ≠ "") : C.Holding V (EngineM.fault f) e :=
  ⟨h, C.refl h, C.tells_fault hf⟩

theorem bind {f : α → EngineM β} (hx : C.Holding V x e)
    (hf : ∀ a e', C.Keeps e' → C.Guards e.heap e'.heap → V a e'.heap → C.Holding W (f a) e') :
    C.Holding W (x >>= f) e := by
  unfold Holding
  cases hr : x e with
  | ok a e₁ =>
    obtain ⟨h₁, hg, hv⟩ := Kept.returned hx hr
    rw [bind_of_ok hr]
    exact Kept.since (hf a e₁ h₁ hg hv) hg
  | error error e₁ =>
    rw [bind_of_error hr]
    exact Kept.failed hx hr

theorem get {f : Engine → EngineM β} (hf : C.Holding W (f e) e) : C.Holding W (MonadState.get >>= f) e := hf

theorem modifyGet {f : Engine → α × Engine} (h : C.Keeps (f e).2) (hg : C.Guards e.heap (f e).2.heap)
    (hv : V (f e).1 (f e).2.heap) : C.Holding V (MonadStateOf.modifyGet f) e :=
  ⟨h, hg, hv⟩

theorem set {V : PUnit → Heap → Prop} (h : C.Keeps e') (hg : C.Guards e.heap e'.heap) (hv : V ⟨⟩ e'.heap) :
    C.Holding V (MonadStateOf.set e') e :=
  ⟨h, hg, hv⟩

theorem modified {V : PUnit → Heap → Prop} {f : Engine → Engine} (h : C.Keeps (f e)) (hg : C.Guards e.heap (f e).heap)
    (hv : V ⟨⟩ (f e).heap) : C.Holding V (modify f) e :=
  ⟨h, hg, hv⟩

end Holding

section Operations

variable (C : Custody)

theorem push (h : C.Keeps e) (hv : C.Has v e.heap) : C.Holding (fun _ _ => True) (push v) e := by
  rw [Holding, push_eq]
  split
  · exact ⟨h, C.refl h, C.tells_fault (Fault.message_ne rfl)⟩
  · exact ⟨C.quiet h rfl rfl rfl ((C.among h).push hv), C.refl h, trivial⟩

theorem popped (h : C.Keeps e) : C.Holding C.Has popped e := by
  refine .modifyGet (C.quiet h rfl rfl rfl (C.among h).pop) (C.refl h) ?_
  simp only [pop]
  cases hb : e.stack.back? with
  | none => exact Value.among_of_plain rfl
  | some v => exact (C.among h).back hb

theorem peek (h : C.Keeps e) : C.Holding C.Has peek e := by
  rw [Holding, peek_eq]
  cases hb : e.stack.back? with
  | none => exact ⟨h, C.refl h, C.tells_fault (Fault.message_ne rfl)⟩
  | some v => exact ⟨h, C.refl h, (C.among h).back hb⟩

theorem ask {V : α → Heap → Prop} {f : Heap → Except Fault α} (h : C.Keeps e)
    (hf : Speaks (V · e.heap) (f e.heap)) : C.Holding V (EngineM.ask f) e := by
  rw [Holding, ask_eq]
  cases hx : f e.heap <;> rw [hx] at hf
  · exact ⟨h, C.refl h, C.tells_fault hf⟩
  · exact ⟨h, C.refl h, hf⟩

theorem change {f : Heap → Except Fault Heap} (h : C.Keeps e) (hf : Speaks (C.Guards e.heap) (f e.heap)) :
    C.Holding (fun _ _ => True) (EngineM.change f) e := by
  rw [Holding, change_eq]
  cases hx : f e.heap <;> rw [hx] at hf
  · exact ⟨h, C.refl h, C.tells_fault hf⟩
  · exact ⟨C.withHeap h hf, hf, trivial⟩

theorem put {f : Heap → Except Fault Heap} (h : C.Keeps e) (hv : C.Has v e.heap)
    (hf : Speaks (e.heap.Puts (C.held e.heap) v) (f e.heap)) : C.Holding (fun _ _ => True) (EngineM.change f) e :=
  C.change h (hf.mono fun _ hp => C.puts h hp hv)

theorem enterTrace (h : C.Keeps e) (entry : TraceEntry) : C.Holding (fun _ _ => True) (enterTrace entry) e := by
  rw [Holding, enterTrace_eq]
  split
  · exact ⟨h, C.refl h, C.tells_fault (Fault.message_ne rfl)⟩
  · exact ⟨C.quiet h rfl rfl rfl { C.among h with }, C.refl h, trivial⟩

theorem enterProtected (h : C.Keeps e) : C.Holding (fun _ heap => heap = e.heap) enterProtected e := by
  rw [Holding, enterProtected_eq]
  split
  · exact ⟨h, C.refl h, C.tells_fault (Fault.message_ne rfl)⟩
  · refine ⟨C.quiet h rfl rfl rfl { C.among h with frames := fun f hf => ?_ }, C.refl h, rfl⟩
    rcases List.mem_cons.mp hf with rfl | hf
    · exact (C.among h).env
    · exact (C.among h).frames f hf

theorem leaveProtected (h : C.Keeps e) (id : ScopeId) :
    C.Holding (fun _ heap => heap = e.heap) (leaveProtected id) e := by
  rw [Holding, leaveProtected_eq]
  cases hf : e.frames with
  | nil => exact ⟨h, C.refl h, C.tells_unbalanced⟩
  | cons frame frames =>
    dsimp only
    split
    · refine ⟨C.quiet h rfl rfl rfl { C.among h with frames := fun f hm => (C.among h).frames f ?_ }, C.refl h, rfl⟩
      rw [hf]
      exact .tail _ hm
    · exact ⟨h, C.refl h, C.tells_unbalanced⟩

theorem newObject {o : Object} (h : C.Keeps e) (ho : ∀ b ∈ (Cell.object o).links, C.held e.heap b) :
    C.Holding C.Has (modifyGet (newObject o)) e := by
  obtain ⟨hg, hnew⟩ := C.alloc h ho
  refine .modifyGet (C.withHeap h hg) hg fun b hb => ?_
  obtain rfl := Option.some.inj hb
  exact hnew

theorem newError (h : C.Keeps e) (name : ErrorName) (message : String) :
    C.Holding C.Has (modifyGet (newError name message)) e :=
  C.newObject h fun _ hb => by cases hb

end Operations

section Loading

variable (C : Custody)

theorem compile (h : C.Keeps e) (name source : String) : C.Holding (fun _ _ => True) (compile name source) e := by
  have hledger {e : Engine} (h : C.Keeps e) (ledger : Ledger) : C.Keeps { e with ledger } :=
    C.quiet h rfl rfl rfl { C.among h with }
  have hparsed := @acquire_error name source e.ledger
  refine .get ?_
  generalize SyntaxTree.acquire name source e.ledger = acquired at hparsed
  obtain ⟨parsed, ledger⟩ := acquired
  refine .bind (V := fun _ _ => True) (.set (hledger h ledger) (C.refl h) trivial) fun _ e₁ h₁ _ _ => ?_
  cases parsed with
  | error d => exact .throw h₁ (C.described rfl rfl (hparsed rfl) rfl)
  | ok tree =>
    refine .bind (V := fun _ _ => True) (.modified (hledger h₁ _) (C.refl h₁) trivial) fun _ e₂ h₂ _ _ => ?_
    cases hcompiled : tree.compile e.strict with
    | error d => exact .throw h₂ (C.described rfl rfl (compile_error hcompiled) rfl)
    | ok unit => exact .pure h₂ trivial

theorem target (h : C.Keeps e) (mode : LoadMode) :
    C.Holding (fun env heap => C.held heap env) (modifyGet (target mode)) e := by
  show C.Keeps (Engine.target mode e).2 ∧ C.Guards e.heap (Engine.target mode e).2.heap ∧
    C.held (Engine.target mode e).2.heap (Engine.target mode e).1
  simp only [Engine.target]
  split
  · obtain ⟨hg, hnew⟩ := C.environment h (C.among h).env
    exact ⟨C.withHeap h hg, hg, hnew⟩
  · exact ⟨h, C.refl h, (C.among h).globalEnv⟩

theorem closureOf {env : Handle} (h : C.Keeps e) (henv : C.held e.heap env) (unit : CodeUnit) :
    C.Holding C.Has (modifyGet (closureOf unit env)) e :=
  C.newObject h fun b hb => by
    obtain rfl := List.mem_singleton.mp hb
    exact henv

theorem bindSource (h : C.Keeps e) (name source : String) (mode : LoadMode) :
    C.Holding C.Has (bindSource name source mode) e :=
  .bind (C.compile h name source) fun unit _ h₁ _ _ =>
    .bind (C.target h₁ mode) fun _ _ h₂ _ henv => C.closureOf h₂ henv unit

theorem readFile (h : C.Keeps e) (path : String) (file : Option Stream) :
    C.Holding (fun _ _ => True) (readFile path file) e := by
  refine .get ?_
  generalize SourceBuffer.ofFile path file e.ledger = opened
  obtain ⟨read, ledger⟩ := opened
  have hledger : C.Keeps { e with ledger } := C.quiet h rfl rfl rfl { C.among h with }
  refine .bind (V := fun _ _ => True) (.set hledger (C.refl h) trivial) fun _ e₁ h₁ _ _ => ?_
  cases read with
  | ok buffer => exact .pure h₁ trivial
  | error error => exact .throw h₁ (C.described rfl rfl error.message_ne rfl)

end Loading

section Functions

variable (C : Custody)

theorem print (h : C.Keeps e) (args : List Value) : C.Holding (fun _ _ => True) (print args) e := by
  refine .get ?_
  split
  · exact .set (C.quiet h rfl rfl rfl { C.among h with }) (C.refl h) trivial
  · exact .fault h (Fault.message_ne rfl)

theorem makeError (h : C.Keeps e) (name : ErrorName) (args : List Value) :
    C.Holding C.Has (modifyGet (makeError name args)) e := by
  have hmade : ∃ message, Engine.makeError name args e = Engine.newError name message e := by
    simp only [Engine.makeError]
    split <;> exact ⟨_, rfl⟩
  obtain ⟨message, hm⟩ := hmade
  obtain ⟨hkeeps, hg, hv⟩ := C.newError h name message
  refine .modifyGet ?_ ?_ ?_ <;> rw [hm]
  · exact hkeeps
  · exact hg
  · exact hv

end Functions

end Custody

end ScriptEngine
