import WeaverDB.Java.Bounds

/-! # Arguments and methods are evaluated once

`ExecMakeFunctionResult` evaluates the arguments of every function; for a Java function
`ExecEvalJavaArgs` evaluates them again, and the bridge calls the method again if the result was longer
than the buffer. SQL functions and sets are left out.
-/

namespace WeaverDB.Java
open Foundations Nat Int List

abbrev Datum := Nat

inductive Expr where
  | other (k : Nat)
  | call (f : Nat) (args : List Expr)

structure FunctionCache where
  hasSetArg : Bool
  setArg : Datum

def FunctionCache.pending (cache : FunctionCache) : Bool := cache.hasSetArg && cache.setArg != 0

/-- A call is told by its path from the root, the last argument number first. -/
structure State (σ : Type) where
  world : σ
  caches : List Nat → FunctionCache

/-- The rest of the server and the Java side: other expressions, conversions and methods. -/
structure Env (σ : Type) where
  other : Nat → σ → Option (Datum × Bool) × σ
  convertToJavaArg : σ → Datum → Option Value
  convertFromJavaArg : Value → σ → Option Datum × σ
  javaFfmInvoker : Bool
  method : Nat → List Value → σ → Outcome × σ

variable {σ : Type} (env : Env σ)

def worlds (f : Nat) (args : List Value) (w : σ) : Nat → σ
  | 0 => w
  | k + 1 => (env.method f args (worlds f args w k)).2

def outcomes (f : Nat) (args : List Value) (w : σ) (k : Nat) : Outcome :=
  (env.method f args (worlds env f args w k)).1

/-- `CallJavaFunction`: the value, unless an error is raised, and the number of calls. -/
def callJavaFunction (f : Nat) (args : List Value) (w : σ) : Option Value × σ × Nat :=
  if env.javaFfmInvoker then
    if (buildArgBlockForInvoker args).2 then (none, w, 0)
    else
      let invocation := callJavaInvokerWithGrowableResult (outcomes env f args w)
      let calls := invocation.calls
      let result := match invocation.rc, parseInvokerResult invocation.result invocation.result.length with
        | some 0, .ok v => some v
        | _, _ => none
      (result, worlds env f args w calls, calls)
  else
    match outcomes env f args w 0 with
    | .returns v => (some v, worlds env f args w 1, 1)
    | .throws _ => (none, worlds env f args w 1, 1)

def fmgrCachedJavaA (f : Nat) (data : List Datum) (w : σ) : Option Datum × σ × Nat :=
  match data.mapM (env.convertToJavaArg w) with
  | none => (none, w, 0)
  | some args =>
    match callJavaFunction env f args w with
    | (none, w, calls) => (none, w, calls)
    | (some v, w, calls) =>
      let (result, w) := env.convertFromJavaArg v w
      (result, w, calls)

/-- The values with the last `isDone`, unless an error is raised, and how many were evaluated. -/
structure Pass (σ : Type) where
  result : Option (List Datum × Bool)
  state : State σ
  started : Nat

/-- What each loop over the arguments has evaluated, and the number of calls. -/
structure Call (σ : Type) where
  result : Option (Datum × Bool)
  state : State σ
  passes : List Nat
  invocations : Nat

def makeJavaResult (f : Nat) (javaArgs : State σ → Pass σ) (passes : List Nat) (m : State σ) : Call σ :=
  let pass := javaArgs m
  let called := match pass.result with
    | none => (none, pass.state.world, 0)
    | some (data, _) => fmgrCachedJavaA env f data pass.state.world
  ⟨called.1.map (·, true), { pass.state with world := called.2.1 }, passes ++ [pass.started], called.2.2⟩

def makeFunctionResult (f nargs : Nat) (funcArgs javaArgs : State σ → Pass σ) (path : List Nat)
    (m : State σ) : Call σ :=
  if nargs = 0 ∨ (m.caches path).pending then makeJavaResult env f javaArgs [] m
  else
    let pass := funcArgs m
    match pass.result with
    | none => ⟨none, pass.state, [pass.started], 0⟩
    | some (_, argDone) =>
      if (pass.state.caches path).hasSetArg && argDone then
        ⟨some (0, true), pass.state, [pass.started], 0⟩
      else makeJavaResult env f javaArgs [pass.started] pass.state

mutual

def execEvalExpr : Expr → List Nat → State σ → Option (Datum × Bool) × State σ
  | .other k, _, m =>
    let (result, w) := env.other k m.world
    (result, { m with world := w })
  | .call f args, path, m =>
    let call := makeFunctionResult env f args.length (execEvalArgs args true path 0 true)
      (execEvalArgs args false path 0 true) path m
    (call.result, call.state)

/-- `ExecEvalFuncArgs`, which accepts a set in the first place only, and `ExecEvalJavaArgs`. -/
def execEvalArgs : List Expr → Bool → List Nat → Nat → Bool → State σ → Pass σ
  | [], _, _, i, argIsDone, m => ⟨some ([], argIsDone), m, i⟩
  | e :: args, func, path, i, _, m =>
    match execEvalExpr e (i :: path) m with
    | (none, m) => ⟨none, m, i+1⟩
    | (some (d, done), m) =>
      if func && !done && i != 0 then ⟨none, m, i+1⟩
      else
        let m := if func && !done then
          { m with caches := fun p => if p = path then ⟨true, d⟩ else m.caches p }
        else m
        let pass := execEvalArgs args func path (i+1) done m
        { pass with result := pass.result.map fun r => (d :: r.1, r.2) }

end

def execMakeFunctionResult (f : Nat) (args : List Expr) (path : List Nat) (m : State σ) : Call σ :=
  makeFunctionResult env f args.length (execEvalArgs env args true path 0 true)
    (execEvalArgs env args false path 0 true) path m

def Call.evaluations (call : Call σ) (i : Nat) : Nat := call.passes.countP (i < ·)

/-- Arguments and method are evaluated once, and at most once if an error is raised. -/
structure Call.Once (call : Call σ) (nargs : Nat) : Prop where
  arguments : ∀ i < nargs, call.evaluations i ≤ 1
  method : call.invocations ≤ 1
  returned : call.result ≠ none → (∀ i < nargs, call.evaluations i = 1) ∧ call.invocations = 1

/-- It fits into the first buffer, or the next one would be refused. -/
def Outcome.Final : Outcome → Prop
  | .throws _ => True
  | .returns v => 12+v.data.length ≤ initialSize ∨
      (2^30 ≤ v.data.length+5132 ∧ v.data.length + 5132 < 2^31) ∨
      2^31 ≤ v.data.length+1036

def Repeats (f : Nat) (data : List Datum) (w : σ) : Prop :=
  ∃ args, data.mapM (env.convertToJavaArg w) = some args ∧ env.javaFfmInvoker ∧
    (buildArgBlockForInvoker args).2 = false ∧ ¬ (env.method f args w).1.Final

/-- An argument raises an error and no set is pending, or the first outcome is final. -/
def Single (f : Nat) (args : List Expr) (path : List Nat) (m : State σ) : Prop :=
  if args.length = 0 ∨ (m.caches path).pending then
    ∀ data done, (execEvalArgs env args false path 0 true m).result = some (data, done) →
      ¬ Repeats env f data (execEvalArgs env args false path 0 true m).state.world
  else (execEvalArgs env args true path 0 true m).result = none

variable (out : Nat → Outcome)

theorem invokeFrom_calls_pos (fuel s k : Nat) : 0 < (invokeFrom out (fuel+1) s k).calls := by
  rw [invokeFrom]
  cases out k with
  | throws message => exact one_pos
  | returns v =>
    simp only
    split
    · split <;> exact one_pos
    · split
      · exact one_pos
      · exact succ_pos _

theorem written_eq {n : Nat} (h : n < 2^31) : (((12+n : Nat) : Int).bmod (2^32) + 1024).bmod (2^32) =
      if n + 1036 < 2^31 then (n+1036 : Int) else n + 1036 - 2^32 := by
  rw [bmod_add_bmod, bmod_def]
  split <;> split <;> omega

theorem newSize_eq {n : Nat} (h : initialSize < 12+n) (hint : n + 1036 < 2^31) :
    (max (((n : Int) + 1036 + 4096).bmod (2^32)) (initialSize*2)).toNat =
      if n + 5132 < 2^31 then max (n+5132) (initialSize*2) else initialSize * 2 := by
  rw [bmod_def]
  split <;> split <;> omega

theorem single_call_iff : (callJavaInvokerWithGrowableResult out).calls = 1 ↔ (out 0).Final := by
  have hlater (s : Nat) := invokeFrom_calls_pos out 2 s 1
  rw [callJavaInvokerWithGrowableResult, maxAttempts, invokeFrom]
  cases out 0 with
  | throws message => exact iff_of_true rfl trivial
  | returns v =>
    have hlt := v.length_data_lt
    simp only [inspect_block v (by decide : 12 ≤ initialSize) (by decide), length_block, Outcome.Final]
    by_cases hfits : 12 + v.data.length ≤ initialSize
    · rw [if_pos hfits, if_pos (Int.ofNat_le.mpr hfits)]
      refine iff_of_true ?_ (.inl hfits)
      split <;> rfl
    · rw [if_neg hfits, written_eq hlt, or_iff_right hfits]
      by_cases hint : v.data.length + 1036 < 2^31
      · have hlarge : ¬ (v.data.length : Int) + 1036 ≤ (initialSize : Nat) := by
          unfold initialSize at *
          omega
        rw [if_pos hint, if_neg hlarge, newSize_eq (Nat.lt_of_not_le hfits) hint]
        have hnew : maxAllocSize < (if v.data.length + 5132 < 2^31 then
            max (v.data.length+5132) (initialSize*2) else initialSize * 2) ↔
            (2^30 ≤ v.data.length+5132 ∧ v.data.length + 5132 < 2^31) ∨ 2^31 ≤ v.data.length+1036 := by
          unfold maxAllocSize initialSize
          split <;> omega
        rw [← hnew]
        generalize (if v.data.length + 5132 < 2^31 then
          max (v.data.length+5132) (initialSize*2) else initialSize * 2) = size
        by_cases hrefused : maxAllocSize < size
        · simp [hrefused]
        · have hmore : (invokeFrom out 3 size (0+1)).calls ≠ 0 := (hlater size).ne'
          simp only [hrefused, if_false, iff_false]
          exact fun hone => hmore (Nat.succ.inj hone)
      · have hsmall : (v.data.length : Int) + 1036 - 2^32 ≤ 0 := by omega
        rw [if_neg hint, if_pos (le_trans hsmall (Int.natCast_nonneg _)), if_pos ⟨trivial, hsmall⟩]
        exact iff_of_true rfl (.inr (Nat.le_of_not_lt hint))

theorem calls_pos : 0 < (callJavaInvokerWithGrowableResult out).calls := invokeFrom_calls_pos out 3 initialSize 0

/-- The method is called at most once unless the bridge repeats the call, and once if there is a
result. -/
theorem fmgrCachedJavaA_calls (f : Nat) (data : List Datum) (w : σ) :
    ((fmgrCachedJavaA env f data w).2.2 ≤ 1 ↔ ¬ Repeats env f data w) ∧
      ((fmgrCachedJavaA env f data w).1 ≠ none → 1 ≤ (fmgrCachedJavaA env f data w).2.2) := by
  have hcalls (args : List Value) (hargs : data.mapM (env.convertToJavaArg w) = some args) :
      ((callJavaFunction env f args w).2.2 ≤ 1 ↔ ¬ Repeats env f data w) ∧
        ((callJavaFunction env f args w).1 ≠ none → 1 ≤ (callJavaFunction env f args w).2.2) := by
    have hrepeats : Repeats env f data w ↔ env.javaFfmInvoker ∧
        (buildArgBlockForInvoker args).2 = false ∧ ¬ (outcomes env f args w 0).Final := by
      constructor
      · rintro ⟨args', hargs', h⟩
        cases hargs.symm.trans hargs'
        exact h
      · exact fun h => ⟨args, hargs, h⟩
    rw [hrepeats, callJavaFunction]
    cases hffm : env.javaFfmInvoker with
    | false =>
      simp only [Bool.false_eq_true, if_false, false_and, not_false_eq_true, iff_true]
      split <;> exact ⟨le_refl 1, fun _ => le_refl 1⟩
    | true =>
      cases hblock : (buildArgBlockForInvoker args).2 with
      | true => simp
      | false =>
        have hpos := calls_pos (outcomes env f args w)
        simp only [if_true, Bool.false_eq_true, if_false, true_and, not_not, ← single_call_iff (outcomes env f args w)]
        exact ⟨⟨fun h => le_antisymm h hpos, le_of_eq⟩, fun _ => hpos⟩
  unfold fmgrCachedJavaA
  cases hargs : data.mapM (env.convertToJavaArg w) with
  | none =>
    refine ⟨iff_of_true (zero_le 1) ?_, fun h => absurd rfl h⟩
    rintro ⟨args, h, -⟩
    rw [hargs] at h
    cases h
  | some args =>
    obtain ⟨hle, hone⟩ := hcalls args hargs
    simp only
    split
    · next heq =>
      rw [heq] at hle
      exact ⟨hle, fun h => absurd rfl h⟩
    · next heq =>
      rw [heq] at hle hone
      exact ⟨hle, fun _ => hone nofun⟩

theorem started_execEvalArgs (args : List Expr) (func : Bool) (path : List Nat) (i : Nat) (done : Bool) (m : State σ) :
    i ≤ (execEvalArgs env args func path i done m).started ∧ ((execEvalArgs env args func path i done m).result ≠ none →
        (execEvalArgs env args func path i done m).started = i+args.length) := by
  induction args generalizing i done m with
  | nil =>
    exact ⟨le_refl i, fun _ => rfl⟩
  | cons e args ih =>
    rw [execEvalArgs]
    split
    · exact ⟨le_succ i, fun h => absurd rfl h⟩
    · split
      · exact ⟨le_succ i, fun h => absurd rfl h⟩
      · next d done' m' _ _ =>
        have hnext := ih (i+1) done' (if func && !done' then
          { m' with caches := fun p => if p = path then ⟨true, d⟩ else m'.caches p } else m')
        refine ⟨le_of_succ_le hnext.1, fun h => ?_⟩
        rw [length_cons, add_comm args.length, ← add_assoc]
        exact hnext.2 fun hnone => h (by simp only [hnone, Option.map_none])

theorem makeJavaResult_once (f : Nat) (args : List Expr) (path : List Nat) (m : State σ) :
    (makeJavaResult env f (execEvalArgs env args false path 0 true) [] m).Once args.length ↔
      ∀ data done, (execEvalArgs env args false path 0 true m).result = some (data, done) →
        ¬ Repeats env f data (execEvalArgs env args false path 0 true m).state.world := by
  obtain ⟨-, hstarted⟩ := started_execEvalArgs env args false path 0 true m
  generalize hpass : execEvalArgs env args false path 0 true m = pass at hstarted ⊢
  have hcount (i : Nat) : [pass.started].countP (i < ·) ≤ 1 := countP_le_length
  cases hresult : pass.result with
  | none =>
    refine iff_of_true ⟨?_, ?_, ?_⟩ nofun
    all_goals simp only [makeJavaResult, hpass, hresult]
    · exact fun i _ => hcount i
    · exact zero_le 1
    · exact fun h => absurd rfl h
  | some r =>
    obtain ⟨data, done⟩ := r
    obtain ⟨hle, hone⟩ := fmgrCachedJavaA_calls env f data pass.state.world
    have hall := hstarted (hresult ▸ nofun)
    constructor
    · rintro ⟨-, hmethod, -⟩ data' done' heq
      cases heq
      simp only [makeJavaResult, hpass, hresult] at hmethod
      exact hle.mp hmethod
    · intro hcond
      have hcalls := hle.mpr (hcond data done rfl)
      refine ⟨?_, ?_, ?_⟩
      all_goals simp only [makeJavaResult, hpass, hresult]
      · exact fun i _ => hcount i
      · exact hcalls
      · intro hvalue
        refine ⟨fun i hi => ?_, le_antisymm hcalls (hone fun hnone => hvalue (hnone ▸ rfl))⟩
        rw [Call.evaluations, nil_append, hall, countP_cons_of_pos (by simpa using hi)]
        rfl

theorem makeJavaResult_twice (f : Nat) {args : List Expr} (hargs : args ≠ []) (path : List Nat)
    (m : State σ) {n : Nat} (hn : 0 < n) :
    (makeJavaResult env f (execEvalArgs env args false path 0 true) [n] m).evaluations 0 = 2 := by
  have hstarted : 0 < (execEvalArgs env args false path 0 true m).started := by
    cases args with
    | nil => exact absurd rfl hargs
    | cons e args =>
      rw [execEvalArgs]
      split
      · exact one_pos
      · split
        · exact one_pos
        · exact (started_execEvalArgs env args false path 1 _ _).1
  change [n, (execEvalArgs env args false path 0 true m).started].countP (0 < ·) = 2
  rw [countP_cons_of_pos (by simpa using hn), countP_cons_of_pos (by simpa using hstarted)]
  rfl

/-- **One evaluation.** Every argument and the method itself are evaluated once. -/
theorem call_once_iff (f : Nat) (args : List Expr) (path : List Nat) (m : State σ) :
    (execMakeFunctionResult env f args path m).Once args.length ↔ Single env f args path m := by
  unfold execMakeFunctionResult makeFunctionResult Single
  split
  · exact makeJavaResult_once env f args path m
  · next hfirst =>
    have hargs : args ≠ [] := fun h => hfirst (.inl (h ▸ rfl))
    have hpos := length_pos_iff.mpr hargs
    obtain ⟨-, hall⟩ := started_execEvalArgs env args true path 0 true m
    simp only
    cases hresult : (execEvalArgs env args true path 0 true m).result with
    | none =>
      exact iff_of_true ⟨fun _ _ => countP_le_length, zero_le 1, fun h => absurd rfl h⟩ rfl
    | some r =>
      have hstarted := hall (hresult ▸ nofun)
      refine iff_of_false (fun honce => ?_) nofun
      simp only at honce
      split at honce
      · nomatch (honce.returned nofun).2
      · have htwice := makeJavaResult_twice env f hargs path
          (execEvalArgs env args true path 0 true m).state (lt_of_lt_of_eq
            (lt_of_lt_of_eq hpos (zero_add _).symm) hstarted.symm)
        exact absurd (htwice.symm.trans_le (honce.arguments 0 hpos)) (by decide)

def sevens : Env Unit where
  other := fun _ w => (some (7, true), w)
  convertToJavaArg := fun _ _ => some (.int4 7)
  convertFromJavaArg := fun _ w => (some 7, w)
  javaFfmInvoker := true
  method := fun _ _ w => (.returns (.int4 7), w)

/-- The argument of a call is evaluated twice. -/
theorem argument_evaluated_twice :
    (execMakeFunctionResult sevens 0 [.other 0] [] ⟨(), fun _ => ⟨false, 0⟩⟩).evaluations 0 = 2 ∧
      ¬ (execMakeFunctionResult sevens 0 [.other 0] [] ⟨(), fun _ => ⟨false, 0⟩⟩).Once 1 := by
  have htwice : (execMakeFunctionResult sevens 0 [.other 0] []
      ⟨(), fun _ => ⟨false, 0⟩⟩).evaluations 0 = 2 := by decide
  refine ⟨htwice, fun h => ?_⟩
  exact absurd (htwice.symm.trans_le (h.arguments 0 (by decide))) (by decide)

end WeaverDB.Java
