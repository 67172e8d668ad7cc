import BulkTransfer.Pool.Line
import BulkTransfer.Pool.Step

/-!
# A schedule on a clock

One order of events is chosen here, on a clock that only goes on when nothing can
happen.  The parties of a run take turns: the submitter, the workers, the
continuations, and for every batch its listing and the feeder behind it.  A turn
lasts until its party has to wait, and whoever is woken up takes a turn behind
those who were woken up before.  The submitter takes a turn when nobody else is
ready, and at the latest behind a fixed number of turns of the others.

No turn goes on for ever.  A party has a number of operations for each turn: taking,
queueing and telling something is one, and so is finding that a time is over.  When
they are spent, the turn is cut short, and the party takes another one in the next
round.

Who waits for room in the queue is served in the order of arrival: a place that
becomes free belongs to the first one in line, and nobody else can fill it.  Of the
workers without a job only the first one looks at the queue.
-/

namespace BulkTransfer
namespace Pool

/-- How the tasks of a run act on a world. -/
structure Surroundings (World : Type) where
  /-- the time of one attempt, in nanoseconds -/
  attemptTime : Nat := 0
  execute : Task → World → Except JobError Outcome × World
  expand : Task → World → Expansion
  /-- what a line submits -/
  read : String → World → Except ParseError (Option Job) := fun _ _ => .ok none
  /-- whether an attempt ends as soon as the run is cancelled -/
  interruptible : Bool := true
  /-- whether no further line is read once the run is cancelled -/
  stopsReading : Bool := false

/-- Who takes turns in a run. -/
inductive Party
  | submitter
  | worker (index : Nat)
  | continuation (id : JobId)
  /-- it starts the listing of a batch -/
  | opening (batch : Nat)
  | listing (batch : Nat)
  /-- it queues what a listing finds -/
  | feeder (batch : Nat)
deriving DecidableEq, Repr, Inhabited

/-- A run under way. -/
structure Course (World : Type) where
  state : State
  world : World
  /-- the time since the start, in nanoseconds -/
  now : Nat := 0
  /-- whose turn it is -/
  turn : Option Party := none
  /-- the operations that are left in the turn -/
  left : Nat := 0
  /-- whose turn has been cut short in this round -/
  unfinished : List Party := []
  /-- who takes the next turns -/
  ready : Line Party
  /-- whether the submitter takes a turn when the others let it -/
  submitterReady : Bool := false
  /-- the turns of the others since they last let the submitter -/
  turns : Nat := 0
  /-- the workers that wait for a time, in the order in which they began to wait -/
  sleepers : List (Nat × Nat) := []
  /-- who waits for room in the queue -/
  line : Line Party := {}
  /-- who has been given a place in the queue and not filled it yet -/
  called : List Party := []
  /-- the workers that wait for a job -/
  receivers : Line Nat := {}
  /-- whether the first of them has begun to look at the queue -/
  looking : Bool := false
  /-- when the run is cancelled from outside -/
  cancelAt : Option Nat := none
  /-- the most attempts that were under way at once -/
  busiest : Nat := 0

namespace Course

variable {World : Type}

/-!
## Waking up and waiting
-/

/-- Make a party ready, unless it is ready already. -/
def wake (course : Course World) (party : Party) : Course World :=
  if party = .submitter then { course with submitterReady := true }
  else if course.ready.contains party then course
  else { course with ready := course.ready.join party }

def wakeAll (course : Course World) (parties : List Party) : Course World :=
  parties.foldl wake course

/-- Wake up a party that waits for something, but not one that waits for its next
turn. -/
def notify (course : Course World) (party : Party) : Course World :=
  if course.unfinished.contains party then course else course.wake party

/-- End the turn. -/
def pause (course : Course World) : Course World :=
  { course with turn := none }

/-- The number of operations for each turn. -/
def longestTurn : Nat := 128

/-- Spend an operation of the turn and go on, or cut the turn short. -/
def spend (course : Course World) (party : Party)
    (rest : Course World → Option (Course World)) : Option (Course World) :=
  match course.left with
  | 0 => some { course.pause with unfinished := course.unfinished ++ [party] }
  | left + 1 => rest { course with left := left }

/-- The longest time that a worker waits: thirty years of 365 days. -/
def longestWait : Nat := 30 * 365 * 86400 * 1000000000

/-- How long a worker stays in a phase, if the phase takes time. -/
def span? (within : Surroundings World) (config : PoolConfig) : Phase → Option Nat
  | .attempting _ _ => some (min within.attemptTime longestWait)
  | .waiting _ attempt =>
      some (min (config.backoff (UInt32.ofNat attempt)).nanoseconds longestWait)
  | _ => none

/-- Let a worker wait as long as its phase takes. -/
def fallAsleep (within : Surroundings World) (course : Course World) (worker : Nat) :
    Course World :=
  let phase := course.state.workers[worker]?
  let span := (phase.bind (span? within course.state.config)).getD 0
  if span = 0 then course
  else { course with sleepers := course.sleepers ++ [(worker, course.now + span)] }

/-- Whether a worker waits for a time. -/
def isAsleep (course : Course World) (worker : Nat) : Bool :=
  course.sleepers.any fun sleeper => sleeper.1 == worker

/-- Wake up who notices that the run is cancelled. -/
def interrupt (within : Surroundings World) (course : Course World) : Course World :=
  let noticed (worker : Nat) : Bool :=
    match course.state.workers[worker]? with
    | some (.attempting _ _) => within.interruptible
    | _ => true
  let (awake, asleep) := course.sleepers.partition fun sleeper => noticed sleeper.1
  let listings := course.state.batches.zipIdx.filter fun (found, _) =>
    found.listing matches .sending _ _ _
  wakeAll { course with sleepers := asleep }
    (awake.map (fun sleeper => .worker sleeper.1) ++
      listings.map fun (_, batch) => .listing batch)

/-!
## Following an event
-/

/-- The worker at which an event happens. -/
def workerOf : Event → Option Nat
  | .take worker | .accept worker | .start worker | .exit worker | .answer worker _
  | .rest worker | .retry worker | .giveUp worker | .act worker => some worker
  | _ => none

/-- Who appears with an event: behind an action a continuation, and with a start the
opening of a batch. -/
def newcomers (event : Event) (before after : State) : List Party :=
  match event with
  | .act _ | .feed _ =>
      (after.continuations.drop before.continuations.length).map
        fun item => .continuation item.id
  | .start _ => ((List.range after.batches.length).drop before.batches.length).map .opening
  | _ => []

/-- The number of attempts under way. -/
def attempts (state : State) : Nat :=
  (state.workers.filter fun phase => phase matches .attempting _ _).length

/-- The course behind an event that has led to a state. -/
def arrive (within : Surroundings World) (course : Course World) (event : Event)
    (state : State) (world : World) : Course World :=
  let before := course.state
  let course :=
    wakeAll { course with
      state := state
      world := world
      busiest := max course.busiest (attempts state) } (newcomers event before state)
  let course :=
    match workerOf event with
    | some worker => fallAsleep within course worker
    | none => course
  if state.cancelled && !before.cancelled then interrupt within course else course

/-- The course behind an event. -/
def follow (within : Surroundings World) (course : Course World) (event : Event)
    (world : World) : Option (Course World) :=
  (course.state.step event).map fun state => arrive within course event state world

/-!
## The queue
-/

/-- Whether a place in the queue is free and has not been given away. -/
def hasFreePlace (course : Course World) : Bool :=
  course.state.queue.length + course.called.length < course.state.config.queueCapacity

/-- Let the worker that looks at the queue know that a job has come. -/
def wakeReceiver (course : Course World) : Course World :=
  match course.receivers.first? with
  | none => course
  | some worker => course.notify (.worker worker)

/-- Give a place that has become free to the first one in line. -/
def callNext (course : Course World) : Course World :=
  match course.line.first? with
  | none => course
  | some party =>
      wake { course with line := course.line.leave, called := course.called ++ [party] } party

/-- A party queues its job, or gets in line for a place. -/
def enter (within : Surroundings World) (course : Course World) (party : Party)
    (event : Event) : Option (Course World) :=
  if course.called.contains party then
    (follow within { course with called := course.called.erase party } event
      course.world).map wakeReceiver
  else if course.line.contains party then some course.pause
  else if course.hasFreePlace then
    (follow within course event course.world).map wakeReceiver
  else some { course.pause with line := course.line.join party }

/-- Put a worker behind those that wait for a job, unless it is the first of them. -/
def lineUp (course : Course World) (worker : Nat) : Course World :=
  if course.receivers.first? = some worker then course
  else { course with receivers := course.receivers.join worker }

/-- Let the next worker look at the queue. -/
def leaveQueue (course : Course World) : Course World :=
  wakeReceiver { course with receivers := course.receivers.leave, looking := false }

/-!
## Turns

Each function does the next thing in a turn.
-/

/-- The submitter reads lines and submits jobs. -/
def submitterTurn (within : Surroundings World) (course : Course World) :
    Option (Course World) :=
  let state := course.state
  if state.offered.isSome then
    course.spend .submitter fun course => enter within course .submitter .submit
  else
    match state.submissions with
    | [] => some course.pause
    | .job _ :: _ => follow within course .offer course.world
    | .line line :: _ =>
        if within.stopsReading && state.cancelled then
          follow within course .stopReading course.world
        else follow within course (.read (within.read line course.world)) course.world

/-- A worker without a job gets in line, and takes a job when it is the first one and
finds one in the queue. -/
def idleTurn (within : Surroundings World) (course : Course World) (worker : Nat) :
    Option (Course World) :=
  if course.receivers.first? = some worker && course.looking then
    if course.state.queue.isEmpty then some course.pause
    else
      (follow within course (.take worker) course.world).map fun course =>
        course.callNext.leaveQueue
  else if (course.lineUp worker).receivers.first? = some worker then
    some { course.lineUp worker with looking := true }
  else some (course.lineUp worker).pause

/-- Whether the next action tells a result. -/
def tells : List Action → Bool
  | .report _ _ :: _ | .close _ :: _ => true
  | _ => false

/-- A party does the first of its actions by an event. -/
def actionTurn (within : Surroundings World) (course : Course World) (party : Party)
    (actions : List Action) (event : Event) : Option (Course World) :=
  if tells actions then
    course.spend party fun course => follow within course event course.world
  else follow within course event course.world

/-- An attempt comes to its end. -/
def attemptEnd (within : Surroundings World) (course : Course World) (worker : Nat)
    (task : Task) : Option (Course World) :=
  let (answer, world) := within.execute task course.world
  follow within course (.answer worker answer) world

/-- A worker goes on with its job. -/
def workerTurn (within : Surroundings World) (course : Course World) (worker : Nat) :
    Phase → Option (Course World)
  | .idle => course.spend (.worker worker) fun course => idleTurn within course worker
  | .holding _ => follow within course (.accept worker) course.world
  | .accepted _ => follow within course (.start worker) course.world
  | .exiting _ => follow within course (.exit worker) course.world
  | .attempting item _ =>
      if course.state.cancelled && within.interruptible then
        follow within course (.answer worker (.error .cancelled)) course.world
      else if course.isAsleep worker then some course.pause
      else if within.attemptTime = 0 then attemptEnd within course worker item.task
      else
        course.spend (.worker worker) fun course =>
          attemptEnd within course worker item.task
  | .waiting _ _ =>
      if course.state.cancelled then follow within course (.giveUp worker) course.world
      else if course.isAsleep worker then some course.pause
      else
        course.spend (.worker worker) fun course =>
          follow within course (.rest worker) course.world
  | .rested _ _ => follow within course (.retry worker) course.world
  | .finishing actions => actionTurn within course (.worker worker) actions (.act worker)

/-- A continuation queues its job. -/
def continuationTurn (within : Surroundings World) (course : Course World) (id : JobId) :
    Option (Course World) :=
  match course.state.continuations.findIdx? fun item => item.id = id with
  | some index =>
      course.spend (.continuation id) fun course =>
        enter within course (.continuation id) (.proceed index)
  | none => some course.pause

/-- Let the feeder of a batch know that its listing has gone on. -/
def wakeFeeder (course : Course World) (batch : Nat) : Course World :=
  match course.state.batches[batch]? with
  | some found =>
      if found.feeding matches .receiving then course.notify (.feeder batch) else course
  | none => course

/-- Let the listing of a batch know that its channel has room. -/
def wakeListing (course : Course World) (batch : Nat) (found : Batch) : Course World :=
  if found.listing matches .sending _ _ _ then course.notify (.listing batch) else course

/-- A listing sends its items as long as the channel takes them. -/
def listingTurn (within : Surroundings World) (course : Course World) (batch : Nat)
    (found : Batch) : Option (Course World) :=
  let state := course.state
  match found.listing with
  | .ready =>
      follow within course (.list batch (within.expand found.parent.task course.world))
        course.world
  | .sending items _ checksEnd =>
      if state.cancelled && (checksEnd || !items.isEmpty) then
        (follow within course (.abandon batch) course.world).map (wakeFeeder · batch)
      else if items.isEmpty then
        (follow within course (.send batch) course.world).map (wakeFeeder · batch)
      else
        course.spend (.listing batch) fun course =>
          if found.channel.length < state.config.queueCapacity then
            (follow within course (.send batch) course.world).map (wakeFeeder · batch)
          else some course.pause
  | .ended _ => some course.pause

/-- A feeder queues what it receives and leaves when the listing has ended. -/
def feederTurn (within : Surroundings World) (course : Course World) (batch : Nat)
    (found : Batch) : Option (Course World) :=
  match found.feeding with
  | .receiving =>
      course.spend (.feeder batch) fun course =>
        if !found.channel.isEmpty then
          (follow within course (.receive batch) course.world).map (wakeListing · batch found)
        else
          match found.listing with
          | .ended _ =>
              course.spend (.feeder batch) fun course =>
                follow within course (.join batch) course.world
          | _ => some course.pause
  | .queueing _ =>
      course.spend (.feeder batch) fun course =>
        enter within course (.feeder batch) (.enqueue batch)
  | .acting actions => actionTurn within course (.feeder batch) actions (.feed batch)
  | .leaving actions =>
      if actions.isEmpty then some course.pause
      else actionTurn within course (.feeder batch) actions (.feed batch)

/-- Go on with the turn of a party. -/
def takeTurn (within : Surroundings World) (course : Course World) :
    Party → Option (Course World)
  | .submitter => submitterTurn within course
  | .worker worker =>
      match course.state.workers[worker]? with
      | some phase => workerTurn within course worker phase
      | none => some course.pause
  | .continuation id => continuationTurn within course id
  | .opening batch => some (course.pause.wake (.listing batch))
  | .listing batch =>
      match course.state.batches[batch]? with
      | some found => listingTurn within course batch found
      | none => some course.pause
  | .feeder batch =>
      match course.state.batches[batch]? with
      | some found => feederTurn within course batch found
      | none => some course.pause

/-!
## The clock
-/

/-- The next instant at which something is due. -/
def nextInstant (course : Course World) : Option Nat :=
  (course.sleepers.map (·.2) ++ course.cancelAt.toList).min?

/-- Let the clock go on, and wake up who has waited long enough. -/
def passTime (course : Course World) (instant : Nat) : Course World :=
  let (awake, asleep) := course.sleepers.partition fun sleeper => sleeper.2 ≤ instant
  wakeAll { course with now := instant, sleepers := asleep }
    (awake.map fun sleeper => .worker sleeper.1)

/-- The number of turns behind which the others let the submitter. -/
def longestRound : Nat := 61

/-- Begin a round: whose turn was cut short in the last one is ready. -/
def beginRound (course : Course World) : Course World :=
  wakeAll { course with turns := 0, unfinished := [] } course.unfinished

/-- Give a turn to a party. -/
def giveTurn (course : Course World) (party : Party) : Course World :=
  { course with turn := some party, left := longestTurn }

/-- Give a turn to the first one who is ready; if nobody is, the clock goes on. -/
def nextReady (course : Course World) : Option (Course World) :=
  match course.ready.first? with
  | some party =>
      some (giveTurn { course with ready := course.ready.leave, turns := course.turns + 1 } party)
  | none => (nextInstant course).map (passTime course)

/-- Find out whose turn it is. -/
def nextTurn (course : Course World) : Option (Course World) :=
  if course.ready.first?.isNone || course.turns = longestRound then
    let course := course.beginRound
    if course.submitterReady then
      some (giveTurn { course with submitterReady := false } .submitter)
    else nextReady course
  else nextReady course

/-- One step: a cancellation that is due, or what comes next in the turn, or else the
next turn. -/
def advance (within : Surroundings World) (course : Course World) :
    Option (Course World) :=
  if course.cancelAt.any (· ≤ course.now) then
    follow within { course with cancelAt := none } .cancel course.world
  else
    match course.turn with
    | some party => takeTurn within course party
    | none => nextTurn course

/-!
## Whole runs
-/

/-- The course from the start; the submitter has the first turn. -/
def initial (config : PoolConfig) (submissions : List Submission) (world : World)
    (cancelled : Bool) (cancelAt : Option Nat) : Course World :=
  { state := { State.initial config submissions with cancelled := cancelled }
    world := world
    turn := some .submitter
    left := longestTurn
    ready := .ofList ((List.range config.workers).map .worker)
    cancelAt := cancelAt.map (min · longestWait) }

/-- Advance until the run is quiescent, at most a given number of times. -/
def advanceFor (within : Surroundings World) : Nat → Course World → Course World
  | 0, course => course
  | fuel + 1, course =>
      if course.state.isQuiescent then course
      else
        match advance within course with
        | some next => advanceFor within fuel next
        | none => course

/-- More steps than any run takes that ends in a lifetime. -/
def longestCourse : Nat := 1000000000000000

/-- Run to quiescence. -/
def run (within : Surroundings World) (course : Course World) : Course World :=
  advanceFor within longestCourse course

/-!
## Courses are runs

The schedule only chooses an order: the state of every course is reached by events
from the state at its start.
-/

@[simp] theorem state_wake (course : Course World) (party : Party) :
    (course.wake party).state = course.state := by
  unfold wake
  split
  · rfl
  · split <;> rfl

@[simp] theorem state_notify (course : Course World) (party : Party) :
    (course.notify party).state = course.state := by
  unfold notify
  split
  · rfl
  · exact state_wake course party

@[simp] theorem state_wakeAll (course : Course World) (parties : List Party) :
    (course.wakeAll parties).state = course.state := by
  unfold wakeAll
  induction parties generalizing course with
  | nil => rfl
  | cons party parties ih =>
      rw [List.foldl_cons, ih, state_wake]

@[simp] theorem state_fallAsleep (within : Surroundings World) (course : Course World)
    (worker : Nat) : (fallAsleep within course worker).state = course.state := by
  simp only [fallAsleep]
  split <;> rfl

@[simp] theorem state_interrupt (within : Surroundings World) (course : Course World) :
    (interrupt within course).state = course.state := by
  simp [interrupt]

@[simp] theorem state_arrive (within : Surroundings World) (course : Course World)
    (event : Event) (state : State) (world : World) :
    (arrive within course event state world).state = state := by
  simp only [arrive]
  split <;> split <;> simp

@[simp] theorem state_wakeReceiver (course : Course World) :
    course.wakeReceiver.state = course.state := by
  unfold wakeReceiver
  split
  · rfl
  · exact state_notify course _

@[simp] theorem state_callNext (course : Course World) :
    course.callNext.state = course.state := by
  unfold callNext
  split
  · rfl
  · simp

@[simp] theorem state_lineUp (course : Course World) (worker : Nat) :
    (course.lineUp worker).state = course.state := by
  unfold lineUp
  split <;> rfl

@[simp] theorem state_leaveQueue (course : Course World) :
    course.leaveQueue.state = course.state :=
  state_wakeReceiver _

@[simp] theorem state_wakeFeeder (course : Course World) (batch : Nat) :
    (course.wakeFeeder batch).state = course.state := by
  unfold wakeFeeder
  split
  · split <;> simp
  · rfl

@[simp] theorem state_wakeListing (course : Course World) (batch : Nat) (found : Batch) :
    (course.wakeListing batch found).state = course.state := by
  unfold wakeListing
  split <;> simp

@[simp] theorem state_beginRound (course : Course World) :
    course.beginRound.state = course.state :=
  state_wakeAll _ _

/-- Whether events lead from one course to another. -/
def Leads (course next : Course World) : Prop :=
  ∃ events, course.state.run events = some next.state

theorem leads_of_state_eq {course next : Course World} (h : next.state = course.state) :
    Leads course next :=
  ⟨[], by rw [h]; rfl⟩

theorem Leads.trans {course middle next : Course World} (h : Leads course middle)
    (h' : Leads middle next) : Leads course next := by
  cases h with
  | intro events hevents =>
      cases h' with
      | intro events' hevents' =>
          exists events ++ events'
          rw [State.run_append, hevents]
          exact hevents'

theorem leads_of_follow {within : Surroundings World} {course next : Course World}
    {event : Event} {world : World} (h : follow within course event world = some next) :
    Leads course next := by
  unfold follow at h
  cases hstep : course.state.step event with
  | none =>
      rw [hstep] at h
      cases h
  | some state =>
      rw [hstep] at h
      cases h
      exists [event]
      rw [State.run_cons, hstep]
      simp

theorem leads_of_follow_map {within : Surroundings World} {course next : Course World}
    {event : Event} {world : World} {f : Course World → Course World}
    (hf : ∀ course, (f course).state = course.state)
    (h : (follow within course event world).map f = some next) : Leads course next := by
  cases hfollow : follow within course event world with
  | none =>
      rw [hfollow] at h
      cases h
  | some middle =>
      rw [hfollow] at h
      cases h
      exact (leads_of_follow hfollow).trans (leads_of_state_eq (hf middle))

theorem leads_of_enter {within : Surroundings World} {course next : Course World}
    {party : Party} {event : Event} (h : enter within course party event = some next) :
    Leads course next := by
  unfold enter at h
  split at h
  · have hcalled : Leads course { course with called := course.called.erase party } :=
      leads_of_state_eq rfl
    exact hcalled.trans (leads_of_follow_map state_wakeReceiver h)
  · split at h
    · cases h
      exact leads_of_state_eq rfl
    · split at h
      · exact leads_of_follow_map state_wakeReceiver h
      · cases h
        exact leads_of_state_eq rfl

theorem leads_of_spend {course next : Course World} {party : Party}
    {rest : Course World → Option (Course World)}
    (hrest : ∀ course next, rest course = some next → Leads course next)
    (h : course.spend party rest = some next) : Leads course next := by
  unfold spend at h
  split at h
  · cases h
    exact leads_of_state_eq rfl
  · rename_i left _
    have hspent : Leads course { course with left := left } := leads_of_state_eq rfl
    exact hspent.trans (hrest _ next h)

theorem leads_of_submitterTurn {within : Surroundings World} {course next : Course World}
    (h : submitterTurn within course = some next) : Leads course next := by
  simp only [submitterTurn] at h
  split at h
  · exact leads_of_spend (fun _ _ => leads_of_enter) h
  · split at h
    · cases h
      exact leads_of_state_eq rfl
    · exact leads_of_follow h
    · split at h <;> exact leads_of_follow h

theorem leads_of_idleTurn {within : Surroundings World} {course next : Course World}
    {worker : Nat} (h : idleTurn within course worker = some next) : Leads course next := by
  have hline := leads_of_state_eq (state_lineUp course worker)
  unfold idleTurn at h
  split at h
  · split at h
    · cases h
      exact leads_of_state_eq rfl
    · exact leads_of_follow_map (fun course => by simp) h
  · split at h <;>
    · cases h
      exact hline

theorem leads_of_actionTurn {within : Surroundings World} {course next : Course World}
    {party : Party} {actions : List Action} {event : Event}
    (h : actionTurn within course party actions event = some next) : Leads course next := by
  unfold actionTurn at h
  split at h
  · exact leads_of_spend (fun _ _ => leads_of_follow) h
  · exact leads_of_follow h

theorem leads_of_attemptEnd {within : Surroundings World} {course next : Course World}
    {worker : Nat} {task : Task} (h : attemptEnd within course worker task = some next) :
    Leads course next :=
  leads_of_follow h

theorem leads_of_workerTurn {within : Surroundings World} {course next : Course World}
    {worker : Nat} {phase : Phase} (h : workerTurn within course worker phase = some next) :
    Leads course next := by
  cases phase with
  | idle => exact leads_of_spend (fun _ _ => leads_of_idleTurn) h
  | holding item => exact leads_of_follow h
  | accepted item => exact leads_of_follow h
  | exiting item => exact leads_of_follow h
  | attempting item attempt =>
      simp only [workerTurn] at h
      split at h
      · exact leads_of_follow h
      · split at h
        · cases h
          exact leads_of_state_eq rfl
        · split at h
          · exact leads_of_attemptEnd h
          · exact leads_of_spend (fun _ _ => leads_of_attemptEnd) h
  | waiting item attempt =>
      simp only [workerTurn] at h
      split at h
      · exact leads_of_follow h
      · split at h
        · cases h
          exact leads_of_state_eq rfl
        · exact leads_of_spend (fun _ _ => leads_of_follow) h
  | rested item attempt => exact leads_of_follow h
  | finishing actions => exact leads_of_actionTurn h

theorem leads_of_continuationTurn {within : Surroundings World} {course next : Course World}
    {id : JobId} (h : continuationTurn within course id = some next) : Leads course next := by
  unfold continuationTurn at h
  split at h
  · exact leads_of_spend (fun _ _ => leads_of_enter) h
  · cases h
    exact leads_of_state_eq rfl

theorem leads_of_listingTurn {within : Surroundings World} {course next : Course World}
    {batch : Nat} {found : Batch} (h : listingTurn within course batch found = some next) :
    Leads course next := by
  have hwake : ∀ course : Course World, (course.wakeFeeder batch).state = course.state :=
    fun course => state_wakeFeeder course batch
  simp only [listingTurn] at h
  split at h
  · exact leads_of_follow h
  · split at h
    · exact leads_of_follow_map hwake h
    · split at h
      · exact leads_of_follow_map hwake h
      · refine leads_of_spend ?_ h
        intro course next h
        split at h
        · exact leads_of_follow_map hwake h
        · cases h
          exact leads_of_state_eq rfl
  · cases h
    exact leads_of_state_eq rfl

theorem leads_of_feederTurn {within : Surroundings World} {course next : Course World}
    {batch : Nat} {found : Batch} (h : feederTurn within course batch found = some next) :
    Leads course next := by
  have hwake : ∀ course : Course World,
      (course.wakeListing batch found).state = course.state :=
    fun course => state_wakeListing course batch found
  simp only [feederTurn] at h
  split at h
  · refine leads_of_spend ?_ h
    intro course next h
    split at h
    · exact leads_of_follow_map hwake h
    · split at h
      · exact leads_of_spend (fun _ _ => leads_of_follow) h
      · cases h
        exact leads_of_state_eq rfl
  · exact leads_of_spend (fun _ _ => leads_of_enter) h
  · exact leads_of_actionTurn h
  · split at h
    · cases h
      exact leads_of_state_eq rfl
    · exact leads_of_actionTurn h

theorem leads_of_takeTurn {within : Surroundings World} {course next : Course World}
    {party : Party} (h : takeTurn within course party = some next) : Leads course next := by
  cases party with
  | submitter => exact leads_of_submitterTurn h
  | worker index =>
      simp only [takeTurn] at h
      split at h
      · exact leads_of_workerTurn h
      · cases h
        exact leads_of_state_eq rfl
  | continuation id => exact leads_of_continuationTurn h
  | opening batch =>
      cases h
      exact leads_of_state_eq (state_wake course.pause (.listing batch))
  | listing batch =>
      simp only [takeTurn] at h
      split at h
      · exact leads_of_listingTurn h
      · cases h
        exact leads_of_state_eq rfl
  | feeder batch =>
      simp only [takeTurn] at h
      split at h
      · exact leads_of_feederTurn h
      · cases h
        exact leads_of_state_eq rfl

theorem leads_of_nextReady {course next : Course World} (h : nextReady course = some next) :
    Leads course next := by
  unfold nextReady at h
  split at h
  · cases h
    exact leads_of_state_eq rfl
  · cases hinstant : nextInstant course with
    | none =>
        rw [hinstant] at h
        cases h
    | some instant =>
        rw [hinstant] at h
        cases h
        exact leads_of_state_eq (state_wakeAll _ _)

theorem leads_of_nextTurn {course next : Course World} (h : nextTurn course = some next) :
    Leads course next := by
  have hround := leads_of_state_eq (state_beginRound course)
  simp only [nextTurn] at h
  split at h
  · split at h
    · cases h
      exact hround
    · exact hround.trans (leads_of_nextReady h)
  · exact leads_of_nextReady h

theorem leads_of_advance {within : Surroundings World} {course next : Course World}
    (h : advance within course = some next) : Leads course next := by
  unfold advance at h
  split at h
  · have hcancel := leads_of_follow h
    exact hcancel
  · split at h
    · exact leads_of_takeTurn h
    · exact leads_of_nextTurn h

/-- What a course comes to is the state behind some sequence of events. -/
theorem leads_advanceFor (within : Surroundings World) (fuel : Nat) (course : Course World) :
    Leads course (advanceFor within fuel course) := by
  induction fuel generalizing course with
  | zero => exact leads_of_state_eq rfl
  | succ fuel ih =>
      unfold advanceFor
      split
      · exact leads_of_state_eq rfl
      · split
        · rename_i next hnext
          exact (leads_of_advance hnext).trans (ih next)
        · exact leads_of_state_eq rfl

end Course
end Pool
end BulkTransfer
