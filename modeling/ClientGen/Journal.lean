import ClientGen.Fault

/-!
# Journals

A run returns a value or a fault, and in both cases the remarks it made on the way. A `Journal` pairs
the two, so that what a computation returns can be stated without its remarks: taking the outcome
commutes with `pure` and `bind`.
-/

namespace ClientGen

/-- How much a remark matters. -/
inductive Level where
  | debug | info | warning
  deriving DecidableEq, Repr

/-- The part of the work that a remark is about. -/
inductive Topic where
  | loading | schemas | responses | endpoints | enumerations | names | units | run
  deriving DecidableEq, Repr

/-- A remark made during a run. -/
structure Remark where
  level : Level
  topic : Topic
  message : String

/-- The remarks of a run and its outcome. -/
structure Journal (α : Type) where
  remarks : List Remark
  outcome : Except Fault α

namespace Journal

variable {α β : Type}

instance : Monad Journal where
  pure a := ⟨[], .ok a⟩
  bind x f :=
    match x.outcome with
    | .ok a => ⟨x.remarks ++ (f a).remarks, (f a).outcome⟩
    | .error e => ⟨x.remarks, .error e⟩

instance : MonadExceptOf Fault Journal where
  throw e := ⟨[], .error e⟩
  tryCatch x handle :=
    match x.outcome with
    | .ok a => ⟨x.remarks, .ok a⟩
    | .error e => ⟨x.remarks ++ (handle e).remarks, (handle e).outcome⟩

instance : MonadLift (Except Fault) Journal where
  monadLift x := ⟨[], x⟩

/-- Make a remark. -/
def remark (level : Level) (topic : Topic) (message : String) : Journal Unit :=
  ⟨[⟨level, topic, message⟩], .ok ()⟩

/-- A remark for those who follow the run closely. -/
def debug (topic : Topic) (message : String) : Journal Unit := remark .debug topic message

/-- A remark on a step that is done. -/
def info (topic : Topic) (message : String) : Journal Unit := remark .info topic message

/-- A remark that everybody should see. -/
def warn (topic : Topic) (message : String) : Journal Unit := remark .warning topic message

/-- The messages of the warnings. -/
def warnings (x : Journal α) : List String :=
  (x.remarks.filter (·.level == .warning)).map (·.message)

@[simp] theorem outcome_pure (a : α) : (pure a : Journal α).outcome = .ok a := rfl

@[simp] theorem remarks_pure (a : α) : (pure a : Journal α).remarks = [] := rfl

@[simp] theorem outcome_throw (e : Fault) : (throw e : Journal α).outcome = .error e := rfl

@[simp] theorem outcome_remark (l : Level) (t : Topic) (m : String) :
    (remark l t m).outcome = .ok () := rfl

/-- Taking the outcome commutes with `bind`: what a run returns does not depend on its remarks. -/
@[simp] theorem outcome_bind (x : Journal α) (f : α → Journal β) :
    (x >>= f).outcome = x.outcome >>= fun a => (f a).outcome := by
  show (match x.outcome with
    | .ok a => (⟨x.remarks ++ (f a).remarks, (f a).outcome⟩ : Journal β)
    | .error e => ⟨x.remarks, .error e⟩).outcome = _
  cases x.outcome <;> rfl

instance : LawfulMonad Journal := LawfulMonad.mk' Journal
  (fun x => by
    show (match x.outcome with
      | .ok a => (⟨x.remarks ++ [], .ok a⟩ : Journal _)
      | .error e => ⟨x.remarks, .error e⟩) = x
    rcases x with ⟨r, o⟩
    cases o <;> simp)
  (fun _ _ => rfl)
  (fun x f g => by
    rcases x with ⟨r, o⟩
    cases o with
    | error e => rfl
    | ok a =>
      show (match (f a).outcome with
        | .ok b => (⟨(r ++ (f a).remarks) ++ (g b).remarks, (g b).outcome⟩ : Journal _)
        | .error e => ⟨r ++ (f a).remarks, .error e⟩) =
        (⟨r ++ (match (f a).outcome with
          | .ok b => (⟨(f a).remarks ++ (g b).remarks, (g b).outcome⟩ : Journal _)
          | .error e => ⟨(f a).remarks, .error e⟩).remarks, _⟩ : Journal _)
      cases h : (f a).outcome <;> simp [bind, h])

end Journal

end ClientGen
