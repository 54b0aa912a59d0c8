import LinuxSamples.Program.Nesting

set_option autoImplicit false

/-! # Hooks for `malloc` and `free`

The program of `Samples_Hook/malloc_hook/test.cpp`. `malloc` and `free` call what `__malloc_hook` and
`__free_hook` point to; the hooks of the program put the old values back, call the function they were
called for, print a line and install themselves again. What they call and what they print with is not
part of the program: an underlying allocator that may assign to the two hooks, though not the hooks of
the program, and a `printf` that may itself call `malloc` and `free`. -/

namespace LinuxSamples.MallocHook

open LinuxSamples.Program

variable {F σ α : Type}

/-! ## The state -/

/-- What a hook variable holds: the program's own hook, or a foreign one, or null. -/
inductive Hook (F : Type)
  | own
  | foreign (f : Option F)
  deriving DecidableEq, Repr

/-- `__malloc_hook` and `__free_hook`, or the values saved of them. -/
structure Hooks (F : Type) where
  malloc : Hook F
  free : Hook F
  deriving DecidableEq, Repr

/-- `my_malloc_hook` and `my_free_hook`. -/
def Hooks.own : Hooks F := ⟨.own, .own⟩

/-- Neither is a hook of the program. -/
def Hooks.Foreign (h : Hooks F) : Prop := h.malloc ≠ .own ∧ h.free ≠ .own

/-- The functions that hooks are for. -/
inductive Kind
  | malloc
  | free
  deriving DecidableEq, Repr

/-- The lines that are printed. -/
inductive Message
  /-- `"malloc (%u) returns %p\n"`. -/
  | malloc (size result : Nat)
  /-- `"freed pointer %p\n"`. -/
  | freed (ptr : Nat)
  deriving DecidableEq, Repr

inductive Event (F : Type)
  /-- A hook of the program is called. -/
  | entered (kind : Kind)
  /-- `old_malloc_hook` and `old_free_hook` are assigned. -/
  | saved (hooks : Hooks F)
  | printed (m : Message)

/-- The hooks, the saved ones, the state of the C library, and what has happened so far. -/
structure World (F σ : Type) where
  hooks : Hooks F
  old : Hooks F
  env : σ
  trace : List (Event F)

inductive Fault
  /-- The calls are nested too deep. -/
  | tooDeep
  deriving DecidableEq, Repr

abbrev Prog (F σ α : Type) : Type := EStateM Fault (World F σ) α

/-! ## The C library -/

/-- What a call of the underlying allocator leads to: its result, the state of the library, and the
    values it assigned to the hooks, if any. -/
structure Reply (F σ α : Type) where
  value : α
  env : σ
  mallocHook : Option (Option F)
  freeHook : Option (Option F)

def Reply.hooks (r : Reply F σ α) (h : Hooks F) : Hooks F :=
  ⟨(r.mallocHook.map Hook.foreign).getD h.malloc, (r.freeHook.map Hook.foreign).getD h.free⟩

/-- The calls of `malloc` and `free` that a `printf` makes, and the states of the library it sets
    before each of them and at the end. What follows depends on what they return. -/
inductive Calls (σ : Type)
  | done (env : σ)
  | malloc (env : σ) (size : Nat) (next : Nat → σ → Calls σ)
  | free (env : σ) (ptr : Nat) (next : σ → Calls σ)

/-- The underlying allocator, which knows what the hooks hold, and `printf`. -/
structure Libc (F σ : Type) where
  malloc : Nat → Hooks F → σ → Reply F σ Nat
  free : Nat → Hooks F → σ → Reply F σ Unit
  printf : Message → σ → Calls σ

/-- `malloc` and `free` as a piece of code calls them. -/
structure Functions (F σ : Type) where
  malloc : Nat → Prog F σ Nat
  free : Nat → Prog F σ Unit

def record (e : Event F) : Prog F σ Unit := modify fun w => { w with trace := w.trace ++ [e] }

/-- A call of the underlying allocator. -/
def underlying (call : Hooks F → σ → Reply F σ α) : Prog F σ α := do
  let w ← get
  let r := call w.hooks w.env
  set { w with hooks := r.hooks w.hooks, env := r.env }
  return r.value

/-- `malloc` and `free` call their hook if it is set. That of the program is `own`; a foreign one is
    part of the underlying allocator. -/
def dispatch (hook : Hooks F → Hook F) (own : Prog F σ α) (call : Hooks F → σ → Reply F σ α) :
    Prog F σ α := do
  match hook (← get).hooks with
  | .own => own
  | .foreign _ => underlying call

def runCalls (fs : Functions F σ) : Calls σ → Prog F σ Unit
  | .done env => modify fun w => { w with env := env }
  | .malloc env size next => do
      modify fun w => { w with env := env }
      let result ← fs.malloc size
      let w ← get
      runCalls fs (next result w.env)
  | .free env ptr next => do
      modify fun w => { w with env := env }
      fs.free ptr
      let w ← get
      runCalls fs (next w.env)

def printf (L : Libc F σ) (fs : Functions F σ) (m : Message) : Prog F σ Unit := do
  record (.printed m)
  let w ← get
  runCalls fs (L.printf m w.env)

/-! ## The program -/

/-- `old_malloc_hook = __malloc_hook; old_free_hook = __free_hook;` -/
def save : Prog F σ Unit :=
  modify fun w => { w with old := w.hooks, trace := w.trace ++ [.saved w.hooks] }

/-- `__malloc_hook = old_malloc_hook; __free_hook = old_free_hook;` -/
def restoreOld : Prog F σ Unit := modify fun w => { w with hooks := w.old }

/-- `__malloc_hook = my_malloc_hook; __free_hook = my_free_hook;` -/
def restoreOwn : Prog F σ Unit := modify fun w => { w with hooks := .own }

/-- The body of both hooks, around the recursive call. -/
def hooked (L : Libc F σ) (fs : Functions F σ) (kind : Kind) (call : Prog F σ α)
    (message : α → Message) : Prog F σ α := do
  record (.entered kind)
  restoreOld
  let result ← call
  save
  printf L fs (message result)
  restoreOwn
  return result

/-- `my_malloc_hook(size, caller)`; `caller` is not used. -/
def myMallocHook (L : Libc F σ) (fs : Functions F σ) (size : Nat) : Prog F σ Nat :=
  hooked L fs .malloc (fs.malloc size) fun result => .malloc (size % 4294967296) result

/-- `my_free_hook(ptr, caller)`; `caller` is not used. -/
def myFreeHook (L : Libc F σ) (fs : Functions F σ) (ptr : Nat) : Prog F σ Unit :=
  hooked L fs .free (fs.free ptr) fun _ => .freed ptr

/-- `my_init()`. -/
def myInit : Prog F σ Unit := do
  save
  restoreOwn

/-- `malloc` and `free`, cut off where calls are nested deeper than a bound. -/
def functions (L : Libc F σ) : Nat → Functions F σ
  | 0 => ⟨fun _ => throw .tooDeep, fun _ => throw .tooDeep⟩
  | depth + 1 =>
      let fs := functions L depth
      ⟨fun size => dispatch Hooks.malloc (myMallocHook L fs size) (L.malloc size),
        fun ptr => dispatch Hooks.free (myFreeHook L fs ptr) (L.free ptr)⟩

/-- A call of `malloc` or `free` by the program. -/
inductive Call
  | malloc (size : Nat)
  | free (ptr : Nat)
  deriving DecidableEq, Repr

def Call.kind : Call → Kind
  | .malloc _ => .malloc
  | .free _ => .free

def Call.run (fs : Functions F σ) : Call → Prog F σ Unit
  | .malloc size => do
      let _ ← fs.malloc size
  | .free ptr => fs.free ptr

/-- The program: `my_init` and then a sequence of calls. -/
def program (L : Libc F σ) (calls : List Call) (depth : Nat) : Prog F σ Unit := do
  myInit
  runAll (Call.run (functions L depth)) calls

/-- The start of the program: the saved hooks are null, and no hook of the program is installed. -/
def World.start (malloc free : Option F) (env : σ) : World F σ :=
  ⟨⟨.foreign malloc, .foreign free⟩, ⟨.foreign none, .foreign none⟩, env, []⟩

/-! ## While the old hooks are installed -/

/-- From `w` to `w'` only foreign code has run: it leaves foreign hooks, and neither the saved ones nor
    the trace have changed. -/
structure Quiet (w w' : World F σ) : Prop where
  hooks : w'.hooks.Foreign
  old : w'.old = w.old
  trace : w'.trace = w.trace

theorem Quiet.trans {w₁ w₂ w₃ : World F σ} (h : Quiet w₁ w₂) (h' : Quiet w₂ w₃) : Quiet w₁ w₃ :=
  ⟨h'.hooks, h'.old.trans h.old, h'.trace.trans h.trace⟩

/-- The state of the library is not part of what the hooks rely on. -/
theorem Quiet.of_env {w w' : World F σ} {env : σ} (h : Quiet { w with env := env } w') : Quiet w w' :=
  ⟨h.hooks, h.old, h.trace⟩

theorem assigned_foreign (assigned : Option (Option F)) {hook : Hook F} (h : hook ≠ .own) :
    (assigned.map Hook.foreign).getD hook ≠ .own := by
  cases assigned with
  | none => exact h
  | some f => exact nofun

theorem Reply.hooks_foreign (r : Reply F σ α) {h : Hooks F} (hh : h.Foreign) :
    (r.hooks h).Foreign :=
  ⟨assigned_foreign r.mallocHook hh.1, assigned_foreign r.freeHook hh.2⟩

variable {L : Libc F σ} {w : World F σ}

theorem underlying_quiet (call : Hooks F → σ → Reply F σ α) (hw : w.hooks.Foreign) :
    ∃ a w', Returns (underlying call) w a w' ∧ Quiet w w' :=
  ⟨_, _, rfl, Reply.hooks_foreign _ hw, rfl, rfl⟩

theorem dispatch_foreign {hook : Hooks F → Hook F} {own : Prog F σ α}
    {call : Hooks F → σ → Reply F σ α} {a : α} {w' : World F σ} (hhook : hook w.hooks ≠ .own)
    (hcall : Returns (underlying call) w a w') : Returns (dispatch hook own call) w a w' := by
  have hget : Returns (get : Prog F σ (World F σ)) w w w := rfl
  refine hget.bind ?_
  cases h : hook w.hooks with
  | own => exact absurd h hhook
  | foreign f => exact hcall

theorem dispatch_own {hook : Hooks F → Hook F} {own : Prog F σ α}
    {call : Hooks F → σ → Reply F σ α} {a : α} {w' : World F σ} (hhook : hook w.hooks = .own)
    (hown : Returns own w a w') : Returns (dispatch hook own call) w a w' := by
  have hget : Returns (get : Prog F σ (World F σ)) w w w := rfl
  refine hget.bind ?_
  rw [hhook]
  exact hown

/-- With foreign hooks, `malloc` and `free` terminate without a hook of the program. -/
theorem malloc_foreign (size : Nat) (hw : w.hooks.Foreign) :
    ∃ result w', Terminates (fun d => (functions L d).malloc size) w result w' ∧ Quiet w w' := by
  obtain ⟨result, w', hcall, hquiet⟩ := underlying_quiet (L.malloc size) hw
  exact ⟨result, w', Terminates.deeper ⟨0, fun d _ => dispatch_foreign hw.1 hcall⟩, hquiet⟩

theorem free_foreign (ptr : Nat) (hw : w.hooks.Foreign) :
    ∃ w', Terminates (fun d => (functions L d).free ptr) w () w' ∧ Quiet w w' := by
  obtain ⟨_, w', hcall, hquiet⟩ := underlying_quiet (L.free ptr) hw
  exact ⟨w', Terminates.deeper ⟨0, fun d _ => dispatch_foreign hw.2 hcall⟩, hquiet⟩

/-- So do all the calls of a `printf`. -/
theorem runCalls_foreign (calls : Calls σ) : ∀ w : World F σ, w.hooks.Foreign →
    ∃ w', Terminates (fun d => runCalls (functions L d) calls) w () w' ∧ Quiet w w' := by
  induction calls with
  | done env => exact fun w hw => ⟨_, Returns.terminates rfl, hw, rfl, rfl⟩
  | malloc env size next ih =>
      intro w hw
      obtain ⟨result, w₁, hcall, h₁⟩ := malloc_foreign (L := L) (w := { w with env := env }) size hw
      obtain ⟨w₂, hrest, h₂⟩ := ih result w₁.env w₁ h₁.hooks
      refine ⟨w₂, ?_, h₁.of_env.trans h₂⟩
      refine Terminates.bind (Returns.terminates rfl) (hcall.bind ?_)
      exact Terminates.bind (Returns.terminates rfl) hrest
  | free env ptr next ih =>
      intro w hw
      obtain ⟨w₁, hcall, h₁⟩ := free_foreign (L := L) (w := { w with env := env }) ptr hw
      obtain ⟨w₂, hrest, h₂⟩ := ih w₁.env w₁ h₁.hooks
      refine ⟨w₂, ?_, h₁.of_env.trans h₂⟩
      refine Terminates.bind (Returns.terminates rfl) (hcall.bind ?_)
      exact Terminates.bind (Returns.terminates rfl) hrest

/-! ## One call -/

/-- What a call of `malloc` or `free` leaves behind where the hooks of the program are installed: it has
    entered that hook once, the saved hooks are foreign, and the own ones are installed again. -/
structure Hooked (kind : Kind) (w w' : World F σ) : Prop where
  hooks : w'.hooks = .own
  old : w'.old.Foreign
  trace : ∃ m, w'.trace = w.trace ++ [.entered kind, .saved w'.old, .printed m]

theorem printf_foreign (m : Message) (hw : w.hooks.Foreign) :
    ∃ w', Terminates (fun d => printf L (functions L d) m) w () w' ∧
      Quiet { w with trace := w.trace ++ [.printed m] } w' := by
  obtain ⟨w', hcalls, hquiet⟩ := runCalls_foreign (L := L) (L.printf m w.env)
    { w with trace := w.trace ++ [.printed m] } hw
  refine ⟨w', ?_, hquiet⟩
  refine Terminates.bind (Returns.terminates rfl) ?_
  exact Terminates.bind (Returns.terminates rfl) hcalls

/-- **The body of a hook**, around a call that terminates quietly with foreign hooks. -/
theorem hooked_terminates (kind : Kind) {call : Nat → Prog F σ α} (message : α → Message)
    (hcall : ∀ w : World F σ, w.hooks.Foreign → ∃ a w', Terminates call w a w' ∧ Quiet w w')
    (hold : w.old.Foreign) : ∃ a w',
      Terminates (fun d => hooked L (functions L d) kind (call d) message) w a w' ∧
      Hooked kind w w' := by
  obtain ⟨a, w₁, hcall, h₁⟩ :=
    hcall { w with hooks := w.old, trace := w.trace ++ [.entered kind] } hold
  obtain ⟨w₂, hprint, h₂⟩ := printf_foreign (L := L)
    (w := { w₁ with old := w₁.hooks, trace := w₁.trace ++ [.saved w₁.hooks] }) (message a) h₁.hooks
  refine ⟨a, { w₂ with hooks := .own }, ?_, rfl, ?_, message a, ?_⟩
  · refine Terminates.bind (Returns.terminates rfl) (Terminates.bind (Returns.terminates rfl) ?_)
    refine hcall.bind (Terminates.bind (Returns.terminates rfl) (hprint.bind ?_))
    exact Terminates.bind (Returns.terminates rfl) (Returns.terminates rfl)
  · rw [h₂.old]
    exact h₁.hooks
  · show w₂.trace = w.trace ++ [.entered kind, .saved w₂.old, .printed (message a)]
    rw [h₂.trace, h₁.trace, h₂.old]
    simp only [List.append_assoc, List.cons_append, List.nil_append]

theorem call_hooked (call : Call) (hhooks : w.hooks = .own) (hold : w.old.Foreign) :
    ∃ w', Terminates (fun d => call.run (functions L d)) w () w' ∧ Hooked call.kind w w' := by
  cases call with
  | malloc size =>
      obtain ⟨result, w', ⟨depth, hcall⟩, hw'⟩ := hooked_terminates (L := L) .malloc
        (fun result => .malloc (size % 4294967296) result) (fun w hw => malloc_foreign size hw) hold
      have hmalloc : Terminates (fun d => (functions L d).malloc size) w result w' :=
        Terminates.deeper ⟨depth, fun d hd => dispatch_own (by rw [hhooks]; rfl) (hcall d hd)⟩
      exact ⟨w', hmalloc.bind (Returns.terminates rfl), hw'⟩
  | free ptr =>
      obtain ⟨_, w', ⟨depth, hcall⟩, hw'⟩ := hooked_terminates (L := L) .free
        (fun _ => .freed ptr) (fun w hw => ⟨(), free_foreign ptr hw⟩) hold
      exact ⟨w', Terminates.deeper
        ⟨depth, fun d hd => dispatch_own (by rw [hhooks]; rfl) (hcall d hd)⟩, hw'⟩

/-! ## All calls -/

/-- The hook that was entered. -/
def Event.kind : Event F → Option Kind
  | .entered kind => some kind
  | _ => none

/-- Between calls of the program: its hooks are installed, the saved ones were never hooks of the
    program, and each call has entered the hook of its kind once and no other one. -/
structure Disciplined (made : List Call) (w : World F σ) : Prop where
  hooks : w.hooks = .own
  old : w.old.Foreign
  saved : ∀ h, Event.saved h ∈ w.trace → h.Foreign
  entered : w.trace.filterMap Event.kind = made.map Call.kind

theorem Disciplined.call {made : List Call} {w' : World F σ} {call : Call}
    (h : Disciplined made w) (hcall : Hooked call.kind w w') : Disciplined (made ++ [call]) w' := by
  obtain ⟨m, htrace⟩ := hcall.trace
  refine ⟨hcall.hooks, hcall.old, fun saved hsaved => ?_, ?_⟩
  · rw [htrace] at hsaved
    rcases List.mem_append.1 hsaved with hbefore | hnew
    · exact h.saved saved hbefore
    · simp only [List.mem_cons, reduceCtorEq, Event.saved.injEq, List.not_mem_nil, or_false,
        false_or] at hnew
      subst hnew
      exact hcall.old
  · rw [htrace, List.filterMap_append, h.entered, List.map_append]
    rfl

theorem disciplined_init (malloc free : Option F) (env : σ) :
    ∃ w, Returns (myInit : Prog F σ Unit) (World.start malloc free env) () w ∧ Disciplined [] w := by
  have hforeign : (⟨.foreign malloc, .foreign free⟩ : Hooks F).Foreign := ⟨nofun, nofun⟩
  refine ⟨_, rfl, rfl, hforeign, fun h hsaved => ?_, rfl⟩
  obtain rfl := Event.saved.inj (List.mem_singleton.1 hsaved)
  exact hforeign

/-- **Hook discipline**: after one `my_init`, every sequence of calls terminates, and so does every
    further call. -/
theorem hook_discipline (L : Libc F σ) (malloc free : Option F) (env : σ) (calls : List Call) :
    ∃ w, Terminates (program L calls) (World.start malloc free env) () w ∧ Disciplined calls w ∧
      ∀ call : Call, ∃ w', Terminates (fun d => call.run (functions L d)) w () w' ∧
        Hooked call.kind w w' ∧ Disciplined (calls ++ [call]) w' := by
  have hstep : ∀ made (call : Call) (w : World F σ), Disciplined made w →
      ∃ w', Terminates (fun d => call.run (functions L d)) w () w' ∧
        Disciplined (made ++ [call]) w' := by
    intro made call w hw
    obtain ⟨w', hcall, hhooked⟩ := call_hooked (L := L) call hw.hooks hw.old
    exact ⟨w', hcall, hw.call hhooked⟩
  obtain ⟨w₁, hinit, h₁⟩ := disciplined_init malloc free env
  obtain ⟨w, hcalls, hw⟩ := runAll_terminates hstep calls [] w₁ h₁
  refine ⟨w, hinit.terminates.bind hcalls, hw, fun call => ?_⟩
  obtain ⟨w', hcall, hhooked⟩ := call_hooked (L := L) call hw.hooks hw.old
  exact ⟨w', hcall, hhooked, hw.call hhooked⟩

/-! ## A second `my_init` -/

theorem hooked_fails {fs : Functions F σ} {kind : Kind} {call : Prog F σ α} {message : α → Message}
    (h : Fails call { w with hooks := w.old, trace := w.trace ++ [.entered kind] } .tooDeep) :
    Fails (hooked L fs kind call message) w .tooDeep := by
  -- the call is made with the saved hooks
  have hentered : Returns (record (.entered kind)) w ()
      { w with trace := w.trace ++ [.entered kind] } := rfl
  have hrestored : Returns restoreOld { w with trace := w.trace ++ [.entered kind] } ()
      { w with hooks := w.old, trace := w.trace ++ [.entered kind] } := rfl
  exact Fails.bind_right hentered (Fails.bind_right hrestored h.bind_left)

/-- Where a hook of the program is saved, `malloc` calls it again and again. -/
theorem malloc_fails (size depth : Nat) : ∀ w : World F σ, w.hooks = .own → w.old = .own →
    Fails ((functions L depth).malloc size) w .tooDeep := by
  induction depth with
  | zero => exact fun w _ _ => ⟨w, rfl⟩
  | succ depth ih =>
      intro w hhooks hold
      have hget : Returns (get : Prog F σ (World F σ)) w w w := rfl
      refine Fails.bind_right hget ?_
      rw [hhooks]
      exact hooked_fails (ih _ hold hold)

/-- **A second `my_init` saves the hooks of the program**, and `malloc` never ends. -/
theorem second_init_diverges (w : World F σ) (size : Nat) :
    ∃ w', Returns (do myInit; myInit : Prog F σ Unit) w () w' ∧
      ∀ result w'', ¬ Terminates (fun d => (functions L d).malloc size) w' result w'' := by
  refine ⟨_, rfl, fun result w'' hends => ?_⟩
  exact hends.not_fails fun depth => malloc_fails size depth _ rfl rfl

end LinuxSamples.MallocHook
