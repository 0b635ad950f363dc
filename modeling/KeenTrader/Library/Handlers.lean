import Mathlib

/-!
# Handlers

A handler changes a state and may throw; what it has changed before it throws stays changed.
An invariant of the handlers of a program is proved rule by rule along their text, and holds
whether they return or throw.
-/

namespace Handlers

variable {ε S α β : Type}

abbrev Handler (ε S α : Type) := ExceptT ε (StateM S) α

/-- The result of a handler, or what it throws, and the state that it leaves. -/
def Handler.exec (h : Handler ε S α) (s : S) : Except ε α × S := h.run s

/-- The state that a handler leaves. -/
def Handler.state (h : Handler ε S α) (s : S) : S := (h.exec s).2

section Exec
variable {x : Handler ε S α} {f : α → Handler ε S β} {s t : S}

@[simp] theorem exec_pure (a : α) : (pure a : Handler ε S α).exec s = (.ok a, s) := rfl

@[simp] theorem exec_modify (g : S → S) :
    (modify g : Handler ε S PUnit).exec s = (.ok ⟨⟩, g s) := rfl

@[simp] theorem exec_set (t : S) : (set t : Handler ε S PUnit).exec s = (.ok ⟨⟩, t) := rfl

theorem exec_bind_ok {a : α} (ok : x.exec s = (.ok a, t)) : (x >>= f).exec s = (f a).exec t := by
  change (fun r : Except ε α × S => ExceptT.bindCont f r.1 r.2) (x.exec s) = _
  rw [ok]
  rfl

theorem exec_bind_error {e : ε} (error : x.exec s = (.error e, t)) :
    (x >>= f).exec s = (.error e, t) := by
  change (fun r : Except ε α × S => ExceptT.bindCont f r.1 r.2) (x.exec s) = _
  rw [error]
  rfl

@[simp] theorem exec_modify_bind {g : S → S} {k : PUnit → Handler ε S β} :
    ((modify g : Handler ε S PUnit) >>= k).exec s = (k ⟨⟩).exec (g s) := exec_bind_ok rfl

@[simp] theorem exec_set_bind {k : PUnit → Handler ε S β} :
    ((set t : Handler ε S PUnit) >>= k).exec s = (k ⟨⟩).exec t := exec_bind_ok rfl

@[simp] theorem exec_get_bind {k : S → Handler ε S β} :
    ((get : Handler ε S S) >>= k).exec s = (k s).exec s := exec_bind_ok rfl

@[simp] theorem exec_lift_ok_bind {a : α} :
    ((liftM (Except.ok a : Except ε α) : Handler ε S α) >>= f).exec s = (f a).exec s :=
  exec_bind_ok rfl

@[simp] theorem exec_lift_error_bind {e : ε} :
    ((liftM (Except.error e : Except ε α) : Handler ε S α) >>= f).exec s = (.error e, s) :=
  exec_bind_error rfl

end Exec

/-- The handler keeps `P`, whether it returns or throws. -/
def Preserves (P : S → Prop) (h : Handler ε S α) : Prop := ∀ s, P s → P (h.state s)

section Rules
variable {P : S → Prop}

theorem Preserves.pure (a : α) : Preserves P (pure a : Handler ε S α) := fun _ start => start

theorem Preserves.throw (e : ε) : Preserves P (throw e : Handler ε S α) := fun _ start => start

theorem Preserves.lift (r : Except ε α) : Preserves P (liftM r : Handler ε S α) :=
  fun _ start => start

theorem Preserves.get : Preserves P (get : Handler ε S S) := fun _ start => start

theorem Preserves.modify {g : S → S} (step : ∀ s, P s → P (g s)) :
    Preserves P (modify g : Handler ε S PUnit) := fun s start => step s start

theorem Preserves.bind {x : Handler ε S α} {f : α → Handler ε S β} (first : Preserves P x)
    (rest : ∀ a, Preserves P (f a)) : Preserves P (x >>= f) := by
  intro s start
  have middle := first s start
  unfold Handler.state at middle ⊢
  cases eq : x.exec s with
  | mk result t =>
    rw [eq] at middle
    cases result with
    | ok a =>
      rw [exec_bind_ok eq]
      exact rest a t middle
    | error e =>
      rw [exec_bind_error eq]
      exact middle

/-- The rest of a handler knows the state that it has just read. -/
theorem Preserves.get_bind {f : S → Handler ε S β} (rest : ∀ s, P s → P ((f s).state s)) :
    Preserves P ((MonadState.get : Handler ε S S) >>= f) := fun s start => rest s start

/-- The rest of a handler knows the value that has been lifted into it. -/
theorem Preserves.lift_bind {r : Except ε α} {f : α → Handler ε S β}
    (rest : ∀ a, r = .ok a → Preserves P (f a)) :
    Preserves P ((liftM r : Handler ε S α) >>= f) := by
  cases r with
  | ok a => exact rest a rfl
  | error e => exact .throw e

theorem Preserves.ite {c : Prop} [Decidable c] {x y : Handler ε S α} (yes : Preserves P x)
    (no : Preserves P y) : Preserves P (if c then x else y) := by
  split
  · exact yes
  · exact no

end Rules

/-- The handler changes nothing. -/
def ReadOnly (h : Handler ε S α) : Prop := ∀ P : S → Prop, Preserves P h

theorem ReadOnly.state_eq {h : Handler ε S α} (reads : ReadOnly h) (s : S) : h.state s = s :=
  reads (· = s) s rfl

/-- What comes last and changes nothing does not count. -/
theorem state_bind_of_readOnly {x : Handler ε S α} {f : α → Handler ε S β}
    (rest : ∀ a, ReadOnly (f a)) (s : S) : (x >>= f).state s = x.state s := by
  unfold Handler.state
  cases eq : x.exec s with
  | mk result t =>
    cases result with
    | ok a =>
      rw [exec_bind_ok eq]
      exact (rest a).state_eq t
    | error e => rw [exec_bind_error eq]

theorem ReadOnly.pure (a : α) : ReadOnly (pure a : Handler ε S α) := fun _ => .pure a

theorem ReadOnly.throw (e : ε) : ReadOnly (throw e : Handler ε S α) := fun _ => .throw e

theorem ReadOnly.lift (r : Except ε α) : ReadOnly (liftM r : Handler ε S α) := fun _ => .lift r

theorem ReadOnly.bind {x : Handler ε S α} {f : α → Handler ε S β} (first : ReadOnly x)
    (rest : ∀ a, ReadOnly (f a)) : ReadOnly (x >>= f) :=
  fun P => (first P).bind fun a => rest a P

/-! ## Reading -/

/-- In this state the handler first reads a value, and then goes on with it. -/
def ReadsFirst (s : S) (h : Handler ε S β) (r : Except ε α) (rest : α → Handler ε S β) : Prop :=
  h.exec s =
    match r with
    | .ok a => (rest a).exec s
    | .error e => (.error e, s)

namespace ReadsFirst

variable {γ : Type} {s : S} {rest : α → Handler ε S β}

theorem lift_bind {r : Except ε γ} {f : γ → Handler ε S β} {g : γ → Except ε α}
    (later : ∀ c, ReadsFirst s (f c) (g c) rest) : ReadsFirst s (liftM r >>= f) (r >>= g) rest := by
  cases r with
  | ok c => exact later c
  | error e => rfl

theorem get_bind {f : S → Handler ε S β} {r : Except ε α} (later : ReadsFirst s (f s) r rest) :
    ReadsFirst s (get >>= f) r rest := later

end ReadsFirst

theorem exists_of_bind_ok {x : Except ε α} {f : α → Except ε β} {b : β} (ok : x >>= f = .ok b) :
    ∃ a, x = .ok a ∧ f a = .ok b := by
  cases x with
  | ok a => exact ⟨a, rfl, ok⟩
  | error e => cases ok

/-- What is read of the elements in front of the first one that cannot be read, without those that
are passed over. -/
def readable (read : α → Except ε (Option β)) (xs : List α) : List β :=
  (xs.takeWhile fun x => (read x).isOk).filterMap fun x => (read x).toOption.join

section Loops
variable {read : α → Except ε (Option β)} {x : α} {b : β} {xs : List α}

theorem readable_cons (read : α → Except ε (Option β)) (x : α) (xs : List α) :
    readable read (x :: xs) =
      match read x with
      | .error _ => []
      | .ok none => readable read xs
      | .ok (some b) => b :: readable read xs := by
  unfold readable
  cases element : read x with
  | error e => simp [element, Except.isOk, Except.toBool]
  | ok b => cases b <;> simp [element, Except.isOk, Except.toBool, Except.toOption]

theorem exists_of_mem_readable (mem : b ∈ readable read xs) : ∃ x ∈ xs, read x = .ok (some b) := by
  obtain ⟨x, front, found⟩ := List.mem_filterMap.mp mem
  refine ⟨x, (List.takeWhile_prefix _).subset front, ?_⟩
  cases element : read x with
  | error e => simp [element, Except.toOption] at found
  | ok b' =>
    rw [element] at found
    exact congrArg Except.ok found

/-- What has been read is put into the state, or passed over. -/
def putOrPass (put : β → S → S) (rest : Handler ε S PUnit) : Option β → Handler ε S PUnit
  | none => rest
  | some b => modify (put b) >>= fun _ => rest

/-- A loop that reads an element in each round, and puts what it has read into the state or passes
it over, puts what is readable. Behind the last element it may have something else to do. -/
theorem state_loop (loop : List α → Handler ε S PUnit) (read : S → α → Except ε (Option β))
    (put : β → S → S)
    (cons : ∀ s x xs, ReadsFirst s (loop (x :: xs)) (read s x) (putOrPass put (loop xs)))
    (same : ∀ s b x, read (put b s) x = read s x) (xs : List α) (s : S) :
    let t := (readable (read s) xs).foldl (fun s b => put b s) s
    (loop xs).state s = t ∨ (loop xs).state s = (loop []).state t := by
  induction xs generalizing s with
  | nil => exact .inr rfl
  | cons x xs ih =>
    have round := cons s x xs
    unfold ReadsFirst at round
    unfold Handler.state at ih ⊢
    rw [round, readable_cons]
    cases read s x with
    | error e => exact .inl rfl
    | ok b =>
      cases b with
      | none => exact ih s
      | some b =>
        have rest : read (put b s) = read s := funext (same s b)
        rw [← rest]
        exact ih (put b s)

end Loops

end Handlers
