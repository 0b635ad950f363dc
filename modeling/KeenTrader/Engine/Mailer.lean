import KeenTrader.Library.Mailbox
import KeenTrader.Library.Json
import KeenTrader.Api.Sender

/-!
# The e-mail and the notice engine

Both engines are a mailbox whose worker is started by the first message. `start` creates the
thread before it sets the flag that the worker tests, and `close` wakes the worker without
clearing that flag. The engines differ in what they do with a message.
-/

namespace KeenTrader.Engine

open Queues Runs KeenTrader.Api

structure EmailMessage where
  subject : AString
  content : AString
  receiver : AString
  deriving DecidableEq

structure NoticeMessage where
  subject : AString
  content : AString
  deriving DecidableEq

/-- What the worker does to the outside. -/
inductive MailEffect where
  | log (msg : AString)
  | request (method path : AString) (params : List (AString × AString))
  deriving DecidableEq

/-- What the worker does with a message, given what it is answered, and whether it returns from
that. An exception ends the program. -/
structure Work (M Reply : Type*) where
  effects : M → Reply → List MailEffect
  returns : M → Reply → Bool

namespace EmailEngine

/-- The message that `send_email` makes. -/
def message (settings : AString → AString) (subject content receiver : AString) : EmailMessage :=
  let receiver := if receiver = "" then settings "email.receiver" else receiver
  { subject, content, receiver }

/-- Sending is commented out: the subject is logged. -/
def work : Work EmailMessage Unit where
  effects msg _ := [.log msg.subject]
  returns _ _ := true

end EmailEngine

namespace NoticelEngine

def message (subject content : AString) : NoticeMessage := { subject, content }

/-- The text is posted, and the body of a good answer is parsed, which may throw. -/
def work (parse : AString → Option Json.Value) (token chatId : AString) :
    Work NoticeMessage Response where
  effects msg resp :=
    [.log msg.subject,
      .request "POST" ("/bot" ++ token ++ "/sendMessage")
        [("chat_id", chatId), ("text", msg.content), ("parse_mode", "HTML")]] ++
      if resp.status.tdiv 100 ≠ 2 then
        [.log ("Failed to send notice, status code: " ++ toString resp.status ++
          ", information: " ++ resp.body)]
      else []
  returns _ resp := resp.status.tdiv 100 ≠ 2 ∨ (parse resp.body).isSome

end NoticelEngine

/-- Where a thread is that calls the engine: outside, before the test of the flag with a message
to send, inside `start` before the thread is created and before the flag is set, before the push,
or inside `close` before the test, before the event is set, and joining. -/
inductive Caller (M : Type*) where
  | outside
  | sending (msg : M)
  | creating (msg : Option M)
  | flagging (msg : Option M)
  | pushing (msg : M)
  | closing
  | setting
  | joining
  deriving DecidableEq

/-- `closed` says that `close` has found the engine active, `relapsed` that the worker has begun
to wait since then, and `aborted` that the program has ended. -/
structure Mailer (M : Type*) where
  mailbox : Mailbox M := {}
  callers : ℕ → Caller M := fun _ => .outside
  trace : List MailEffect := []
  closed : Bool := false
  relapsed : Bool := false
  aborted : Bool := false

namespace Mailer

variable {M Reply : Type*}

def setCaller (s : Mailer M) (i : ℕ) (c : Caller M) : Mailer M :=
  { s with callers := Function.update s.callers i c }

/-- The worker holds the lock from the end of its loop on until it has popped the message. -/
def locked (s : Mailer M) : Bool :=
  match s.mailbox.worker with
  | .leaving | .busy _ => true
  | _ => false

/-- The worker is about to wait. -/
def idles (s : Mailer M) : Bool :=
  match s.mailbox.worker with
  | .testing => s.mailbox.active && s.mailbox.queue.isEmpty
  | _ => false

/-- The next step of a thread inside `send_email` or `send_notice`, `start` or `close`. A thread
is assigned to while the one before is not joined: that ends the program. -/
def advance (s : Mailer M) (i : ℕ) : Mailer M :=
  match s.callers i with
  | .outside => s
  | .sending msg =>
    s.setCaller i (if s.mailbox.active then .pushing msg else .creating (some msg))
  | .creating msg =>
    match s.mailbox.worker with
    | .absent => { s with mailbox := s.mailbox.spawn }.setCaller i (.flagging msg)
    | _ => { s with aborted := true }
  | .flagging msg =>
    { s with mailbox := { s.mailbox with active := true } }.setCaller i
      (match msg with | some msg => .pushing msg | none => .outside)
  | .pushing msg =>
    if s.locked then s
    else { s with mailbox := s.mailbox.push msg }.setCaller i .outside
  | .closing =>
    if s.mailbox.active then { s with closed := true }.setCaller i .setting
    else s.setCaller i .outside
  | .setting => { s with mailbox := s.mailbox.set }.setCaller i .joining
  | .joining =>
    match s.mailbox.worker with
    | .exited => { s with mailbox := { s.mailbox with worker := .absent } }.setCaller i .outside
    | .absent => s.setCaller i .outside
    | _ => s

variable (work : Work M Reply)

/-- One step of `run`. Behind the loop the flag is read again; the front of an empty queue does
not exist. -/
def run (s : Mailer M) (reply : Reply) : Mailer M :=
  match s.mailbox.worker with
  | .leaving =>
    if s.mailbox.active then
      match s.mailbox.queue with
      | msg :: _ => { s with mailbox := { s.mailbox with worker := .busy msg } }
      | [] => { s with aborted := true }
    else { s with mailbox := { s.mailbox with worker := .exited } }
  | .busy msg =>
    if work.returns msg reply then
      { s with
        mailbox := { s.mailbox with worker := .testing, queue := s.mailbox.queue.tail }
        trace := s.trace ++ work.effects msg reply }
    else { s with aborted := true, trace := s.trace ++ work.effects msg reply }
  | _ =>
    { s with mailbox := s.mailbox.look, relapsed := s.relapsed || (s.closed && s.idles) }

/-- The steps: thread `i` calls the engine or goes on in its call, and the worker takes a step. -/
inductive Step (M Reply : Type*) where
  | send (i : ℕ) (msg : M)
  | start (i : ℕ)
  | close (i : ℕ)
  | advance (i : ℕ)
  | run (reply : Reply)

/-- A thread makes a call when it is not inside another. -/
def enter (s : Mailer M) (i : ℕ) (c : Caller M) : Mailer M :=
  match s.callers i with
  | .outside => s.setCaller i c
  | _ => s

def step (s : Mailer M) (l : Step M Reply) : Mailer M :=
  if s.aborted then s
  else
    match l with
    | .send i msg => s.enter i (.sending msg)
    | .start i => s.enter i (.creating none)
    | .close i => s.enter i .closing
    | .advance i => s.advance i
    | .run reply => s.run work reply

/-- The worker returns, or goes down with the program, only after `close`; and after `close` it
does not begin to wait. -/
structure Reliable (s : Mailer M) : Prop where
  ended : s.mailbox.worker = .exited ∨ s.aborted = true → s.closed = true
  awake : s.relapsed = false

/-- The steps that the flag and the threads are ready for. The worker tests the loop's condition
after `close` only while there are messages. Before `close`: it reads the flag behind the loop
only when it is set and there is a message, what it does with a message returns, and no thread is
created while there is one. -/
def Ready (s : Mailer M) (l : Step M Reply) : Prop :=
  s.aborted = false → match l with
  | .run reply =>
    match s.mailbox.worker with
    | .testing => s.closed = true → s.mailbox.active = true → s.mailbox.queue ≠ []
    | .leaving => s.closed = true ∨ (s.mailbox.active = true ∧ s.mailbox.queue ≠ [])
    | .busy msg => s.closed = true ∨ work.returns msg reply = true
    | _ => True
  | .advance i =>
    match s.callers i with
    | .creating _ => s.closed = true ∨ s.mailbox.worker = .absent
    | _ => True
  | _ => True

variable {work} {s t : Mailer M}

theorem Reliable.of_same (reliable : s.Reliable)
    (worker : t.mailbox.worker = .exited → s.mailbox.worker = .exited)
    (aborted : t.aborted = s.aborted) (closed : s.closed = true → t.closed = true)
    (relapsed : t.relapsed = s.relapsed) : t.Reliable where
  ended gone := by
    rw [aborted] at gone
    exact closed (reliable.ended (gone.imp_left worker))
  awake := relapsed.trans reliable.awake

/-- Calling the engine changes nothing but the caller. -/
theorem Reliable.enter (reliable : s.Reliable) (i : ℕ) (c : Caller M) :
    (s.enter i c).Reliable := by
  unfold Mailer.enter
  split
  · exact reliable.of_same id rfl id rfl
  · exact reliable

/-- A thread inside a call does no harm, unless it creates a second thread. -/
theorem Reliable.advance_iff (reliable : s.Reliable) (i : ℕ) :
    (s.advance i).Reliable ↔ match s.callers i with
      | .creating _ => s.closed = true ∨ s.mailbox.worker = .absent
      | _ => True := by
  unfold Mailer.advance
  cases s.callers i with
  | outside => exact iff_of_true reliable trivial
  | sending msg => exact iff_of_true (reliable.of_same id rfl id rfl) trivial
  | creating msg =>
    simp only
    cases worker : s.mailbox.worker with
    | absent =>
      refine iff_of_true (reliable.of_same (fun exited => ?_) rfl id rfl) (.inr rfl)
      simp [setCaller, Mailbox.spawn, worker] at exited
    | _ =>
      simp only [reduceCtorEq, or_false]
      exact ⟨fun after => after.ended (.inr rfl), fun closed => ⟨fun _ => closed, reliable.awake⟩⟩
  | flagging msg => exact iff_of_true (reliable.of_same id rfl id rfl) trivial
  | pushing msg =>
    simp only
    split
    · exact iff_of_true reliable trivial
    · exact iff_of_true (reliable.of_same id rfl id rfl) trivial
  | closing =>
    simp only
    split
    · exact iff_of_true (reliable.of_same id rfl (fun _ => rfl) rfl) trivial
    · exact iff_of_true (reliable.of_same id rfl id rfl) trivial
  | setting => exact iff_of_true (reliable.of_same id rfl id rfl) trivial
  | joining =>
    simp only
    split
    · exact iff_of_true (reliable.of_same (fun exited => by simp [setCaller] at exited) rfl id rfl)
        trivial
    · exact iff_of_true (reliable.of_same id rfl id rfl) trivial
    · exact iff_of_true reliable trivial

/-- The worker waits again, or it does not. -/
theorem Reliable.look_iff (reliable : s.Reliable) :
    ({ s with mailbox := s.mailbox.look
              relapsed := s.relapsed || (s.closed && s.idles) } : Mailer M).Reliable ↔
      (s.closed = true → s.idles = false) := by
  constructor
  · intro after closed
    have awake := after.awake
    simpa [reliable.awake, closed] using awake
  · intro ready
    refine ⟨fun gone => reliable.ended (gone.imp_left (Mailbox.look_exited _).mp), ?_⟩
    cases closed : s.closed with
    | false => simp [reliable.awake]
    | true => simp [reliable.awake, ready closed]

/-- Behind the loop the worker takes a message, or its life ends. -/
theorem Reliable.leave_iff (reliable : s.Reliable) (leaving : s.mailbox.worker = .leaving)
    (reply : Reply) : (s.run work reply).Reliable ↔
      (s.closed = true ∨ (s.mailbox.active = true ∧ s.mailbox.queue ≠ [])) := by
  unfold Mailer.run
  rw [leaving]
  simp only
  split
  · rename_i active
    cases queued : s.mailbox.queue with
    | nil =>
      simp only [active, ne_eq, not_true_eq_false, and_false, or_false]
      exact ⟨fun after => after.ended (.inr rfl), fun closed => ⟨fun _ => closed, reliable.awake⟩⟩
    | cons msg rest =>
      refine iff_of_true (reliable.of_same (fun exited => ?_) rfl id rfl) (.inr ⟨active, by simp⟩)
      simp at exited
  · rename_i inactive
    simp only [inactive, Bool.false_eq_true, false_and, or_false]
    exact ⟨fun after => after.ended (.inl rfl), fun closed => ⟨fun _ => closed, reliable.awake⟩⟩

/-- The worker is done with a message, or goes down with the program. -/
theorem Reliable.work_iff (reliable : s.Reliable) {msg : M} (busy : s.mailbox.worker = .busy msg)
    (reply : Reply) : (s.run work reply).Reliable ↔
      (s.closed = true ∨ work.returns msg reply = true) := by
  unfold Mailer.run
  rw [busy]
  simp only
  split
  · rename_i returns
    refine iff_of_true (reliable.of_same (fun exited => ?_) rfl id rfl) (.inr returns)
    simp at exited
  · rename_i throws
    simp only [throws, or_false, Bool.false_eq_true]
    exact ⟨fun after => after.ended (.inr rfl), fun closed => ⟨fun _ => closed, reliable.awake⟩⟩

theorem Reliable.run_iff (reliable : s.Reliable) (running : s.aborted = false) (reply : Reply) :
    (s.run work reply).Reliable ↔ s.Ready work (.run reply) := by
  simp only [Ready, running, true_imp_iff]
  cases worker : s.mailbox.worker with
  | leaving => exact reliable.leave_iff worker reply
  | busy msg => exact reliable.work_iff worker reply
  | testing =>
    have look := reliable.look_iff
    simp only [idles, worker, Bool.and_eq_false_imp, List.isEmpty_eq_false_iff] at look
    simpa only [Mailer.run, worker, idles] using look
  | absent | waiting | exited =>
    have look := reliable.look_iff
    simp only [idles, worker, implies_true, iff_true] at look
    simpa only [Mailer.run, worker, idles, iff_true] using look

/-- A step keeps the engine reliable exactly if it is ready for it. -/
theorem Reliable.step_iff (reliable : s.Reliable) (l : Step M Reply) :
    (s.step work l).Reliable ↔ s.Ready work l := by
  unfold Mailer.step
  cases running : s.aborted with
  | true =>
    refine iff_of_true (by simpa using reliable) fun alive => ?_
    rw [running] at alive
    exact absurd alive (by simp)
  | false =>
    simp only [Bool.false_eq_true, if_false]
    cases l with
    | send i msg => exact iff_of_true (reliable.enter i _) fun _ => trivial
    | start i => exact iff_of_true (reliable.enter i _) fun _ => trivial
    | close i => exact iff_of_true (reliable.enter i _) fun _ => trivial
    | advance i => simpa only [Ready, running, true_imp_iff] using reliable.advance_iff i
    | run reply => exact reliable.run_iff running reply

theorem reliable_run (work : Work M Reply) (steps : List (Step M Reply)) :
    Always (step work) Reliable ({} : Mailer M) steps ↔
      Meets (step work) (Ready work) ({} : Mailer M) steps := by
  refine always_iff_meets (fun s l reliable => reliable.step_iff l) ⟨?_, rfl⟩
  rintro (exited | aborted)
  · simp at exited
  · simp at aborted

/-- Both engines are reliable in exactly those runs whose steps all come when the engine is ready
for them. -/
theorem engines_reliable_iff (parse : AString → Option Json.Value) (token chatId : AString) :
    (∀ steps, Always (step (NoticelEngine.work parse token chatId)) Reliable {} steps ↔
      Meets (step (NoticelEngine.work parse token chatId))
        (Ready (NoticelEngine.work parse token chatId)) {} steps) ∧
    ∀ steps, Always (step EmailEngine.work) Reliable {} steps ↔
      Meets (step EmailEngine.work) (Ready EmailEngine.work) {} steps :=
  ⟨reliable_run _, reliable_run _⟩

/-- The first message of an engine, whose worker runs before the flag is set. -/
def firstMessage (msg : M) (reply : Reply) : List (Step M Reply) :=
  [.send 0 msg, .advance 0, .advance 0, .run reply, .run reply, .advance 0, .advance 0]

/-- The worker has returned, nobody has closed the engine, and the message stays in the queue of
an active engine. -/
theorem first_message_stranded :
    (¬ ∀ steps, Always (step EmailEngine.work) Reliable {} steps) ∧
      ¬ ∀ steps, Always (step (NoticelEngine.work (fun _ => none) "token" "chat")) Reliable {}
        steps := by
  constructor
  · intro all
    have ended := (all (firstMessage ⟨"subject", "content", "receiver"⟩ ())).last.ended
    exact absurd (ended (.inl (by decide))) (by decide)
  · intro all
    have ended := (all (firstMessage ⟨"subject", "content"⟩ { status := 200 })).last.ended
    exact absurd (ended (.inl (by decide))) (by decide)

end Mailer

end KeenTrader.Engine
