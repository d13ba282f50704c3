import Resync.Traced

namespace Resync

/-- A course of action of a branch: a tree of requests to run one of its children from a state, each
    followed by what is to be done with the outcome. A script knows neither the children nor how
    they are run, and it always ends, so the engine is the only place where parsing recurs. -/
inductive Script (α : Type) where
  /-- Finishes. -/
  | done (value : α)
  /-- Stops with a fault. -/
  | fault (fault : Fault)
  /-- Makes a remark and goes on. -/
  | note (line : String) (next : Script α)
  /-- Has a child run from a state and goes on with its outcome. -/
  | run (index : Nat) (s : State) (next : Result → Script α)

namespace Script

variable {α β : Type}

protected def bind : Script α → (α → Script β) → Script β
  | done value, f => f value
  | fault e, _ => fault e
  | note line next, f => note line (next.bind f)
  | run index s next, f => run index s fun r => (next r).bind f

instance : Monad Script where
  pure := done
  bind := Script.bind

/-- Has a child run from a state. -/
def child (index : Nat) (s : State) : Script Result :=
  run index s done

/-- Makes a remark. -/
def remark (line : String) : Script Unit :=
  note line (done ())

/-- A value, or the defect that it could not be had for. -/
def ofExcept : Except Defect α → Script α
  | .ok value => done value
  | .error defect => fault (.defect defect)

/-- Carries a script out, given how children are run. -/
def exec (runChild : Nat → State → Traced Result) : Script α → Traced α
  | done value => pure value
  | fault e => Traced.fault e
  | note line next => do
    Traced.emit (.noted line)
    exec runChild next
  | run index s next => do
    let r ← runChild index s
    exec runChild (next r)

protected theorem id_map (script : Script α) : id <$> script = script := by
  change script.bind (fun a => done (id a)) = script
  induction script with
  | done => rfl
  | fault => rfl
  | note line next ih => exact congrArg (note line) ih
  | run index s next ih => exact congrArg (run index s) (funext ih)

protected theorem bind_assoc {γ : Type} (script : Script α) (f : α → Script β) (g : β → Script γ) :
    script >>= f >>= g = script >>= fun a => f a >>= g := by
  change (script.bind f).bind g = script.bind fun a => (f a).bind g
  induction script with
  | done => rfl
  | fault => rfl
  | note line next ih => exact congrArg (note line) ih
  | run index s next ih => exact congrArg (run index s) (funext ih)

instance : LawfulMonad Script :=
  LawfulMonad.mk' _ Script.id_map (fun _ _ => rfl) Script.bind_assoc

@[simp]
theorem exec_pure (runChild : Nat → State → Traced Result) (value : α) :
    (pure value : Script α).exec runChild = pure value := rfl

@[simp]
theorem exec_child (runChild : Nat → State → Traced Result) (index : Nat) (s : State) :
    (child index s).exec runChild = runChild index s := by
  simp [child, exec]

/-- Carrying out a script in two parts is carrying out the parts one after the other. -/
theorem exec_bind (runChild : Nat → State → Traced Result) (script : Script α)
    (f : α → Script β) :
    (script >>= f).exec runChild = script.exec runChild >>= fun a => (f a).exec runChild := by
  change (script.bind f).exec runChild = _
  induction script with
  | done value => simp [Script.bind, exec]
  | fault e => rfl
  | note line next ih => simp only [Script.bind, exec, ih, bind_assoc]
  | run index s next ih => simp only [Script.bind, exec, ih, bind_assoc]

end Script

/-- The two ways in which a branch is called. -/
inductive Step where
  /-- To parse from a state. -/
  | descend (s : State)
  /-- To go on after one of its children was parsed anew. -/
  | resume (resumption : Resumption)

/-- What a branch can see of itself. -/
structure View where
  id : Nat
  /-- The labels of its children. -/
  labels : List String

end Resync
