import CexHertz.Lib.Run
import CexHertz.Service.EventPipeline

/-!
# The goroutines of the event pipeline

`dispatchToProcessorsInternal` with every access to something shared as a step of its own. `history`
runs beside it the pipeline in which a dispatch is one step, advanced when a processor returns or an
event is skipped; the offsets of the two agree except between the return of a processor and the
write of its offset, under the lock.
-/

namespace CexHertz

open Function List

structure EventContext where
  event : MatchingEngineEvent
  topic : String
  partition : Int
  offset : Int
  stateChecksum : String
  orderCount : Int
  tradeCount : Int

def EventContext.isValid (ec : EventContext) : Bool :=
  ec.topic ≠ "" && 0 ≤ ec.partition && 0 ≤ ec.offset

structure EventOffsetCheckpoint where
  processorName : String
  symbol : String
  eventSeq : Nat
  kafkaOffset : Int
  partitionID : Int
  timestamp : Int
  stateChecksum : String
  orderCount : Int
  tradeCount : Int

def EventContext.checkpoint (eventCtx : EventContext) (procName : String)
    (event : MatchingEngineEvent) (now : Int) : EventOffsetCheckpoint where
  processorName := procName
  symbol := event.symbol
  eventSeq := event.eventSeq
  kafkaOffset := eventCtx.offset
  partitionID := eventCtx.partition
  timestamp := now
  stateChecksum := eventCtx.stateChecksum
  orderCount := eventCtx.orderCount
  tradeCount := eventCtx.tradeCount

structure CheckpointManager where
  checkpoints : String → Option EventOffsetCheckpoint

def CheckpointManager.recordEventProcessed (cm : CheckpointManager) (cp : EventOffsetCheckpoint) :
    CheckpointManager :=
  ⟨update cm.checkpoints (cp.processorName ++ ":" ++ cp.symbol) (some cp)⟩

/-- Where a goroutine is.  Everything from `locked` to `unlocking` is under the lock. -/
inductive DispatchPhase where
  | waiting
  | locked
  | calling
  | failing (err : String)
  | succeeded
  | offsetWritten
  | kafkaWritten
  | recorded
  | unlocking
  | done
  deriving DecidableEq

def DispatchPhase.underLock : DispatchPhase → Bool
  | .waiting | .done => false
  | _ => true

def DispatchPhase.uncounted : DispatchPhase → Bool
  | .succeeded | .offsetWritten | .kafkaWritten | .recorded => true
  | _ => false

structure Goroutine where
  call : Nat
  proc : Nat
  event : MatchingEngineEvent
  eventCtx : Option EventContext
  phase : DispatchPhase

inductive CallPhase where
  | appending
  | dispatching
  | returned (err : Option String)

structure PipelineCall where
  event : MatchingEngineEvent
  eventCtx : Option EventContext
  errChan : List String
  phase : CallPhase

/-- `procSymLocks`: the goroutine that holds the lock.  The counters count events and stay far below
the bound of their type. -/
structure PipelineState where
  processors : List String
  processorOffsets : String → String → Nat
  kafkaOffsets : String → String → Int
  procSymLocks : String → Option Nat
  checkpointMgr : Option CheckpointManager
  processedEventCount : Nat
  failedEventCount : Nat
  log : List MatchingEngineEvent
  calls : List PipelineCall
  goroutines : List Goroutine
  history : EventPipeline

open PipelineState

def newPipelineState (checkpointMgr : Option CheckpointManager) : PipelineState where
  processors := []
  processorOffsets := fun _ _ => 0
  kafkaOffsets := fun _ _ => 0
  procSymLocks := fun _ => none
  checkpointMgr := checkpointMgr
  processedEventCount := 0
  failedEventCount := 0
  log := []
  calls := []
  goroutines := []
  history := newEventPipeline

structure DispatchInput where
  now : Int
  err : Option String

inductive PipelineAction where
  | processEvent (event : MatchingEngineEvent)
  | processEventWithContext (eventCtx : EventContext)
  | append (call : Nat) (err : Option String)
  | advance (goroutine : Nat) (input : DispatchInput)
  | finish (call : Nat)

def lockKey (procName symbol : String) : String := procName ++ "\x00" ++ symbol

namespace PipelineState

variable (s : PipelineState)

def registerProcessor (name : String) : PipelineState :=
  { s with
    processors := s.processors ++ [name]
    processorOffsets := update s.processorOffsets name fun _ => 0
    kafkaOffsets := update s.kafkaOffsets name fun _ => 0 }

def nameOf (i : Nat) : String := s.processors.getD i ""

def getProcessorOffset (processorName symbol : String) : Nat :=
  if processorName ∈ s.processors then s.processorOffsets processorName symbol else 0

def setPhase (j : Nat) (g : Goroutine) (phase : DispatchPhase) : PipelineState :=
  { s with goroutines := s.goroutines.set j { g with phase := phase } }

def dispatched (g : Goroutine) (err : Option String) : PipelineState :=
  { s with history := s.history.dispatch g.proc (s.nameOf g.proc) g.event err }

def sendError (call : Nat) (err : String) : PipelineState :=
  { s with
    calls := s.calls.modify call fun c => { c with errChan := c.errChan ++ [err] }
    failedEventCount := s.failedEventCount + 1 }

def advance (j : Nat) (g : Goroutine) (input : DispatchInput) : Option PipelineState :=
  let procName := s.nameOf g.proc
  let symbol := g.event.symbol
  let seq := g.event.eventSeq
  let key := lockKey procName symbol
  match g.phase with
  | .waiting =>
    if s.procSymLocks key = none then
      some ({ s with procSymLocks := update s.procSymLocks key (some j) }.setPhase
        j g .locked)
    else none
  | .locked =>
    if seq ≤ s.processorOffsets procName symbol then
      some ((s.dispatched g none).setPhase j g .unlocking)
    else some (s.setPhase j g .calling)
  | .calling =>
    match input.err with
    | some err => some ((s.dispatched g (some err)).setPhase j g (.failing err))
    | none => some ((s.dispatched g none).setPhase j g .succeeded)
  | .failing err =>
    some ((s.sendError g.call ("processor " ++ procName ++ ": " ++ err)).setPhase j g .unlocking)
  | .succeeded =>
    some ({ s with
      processorOffsets := setOffset s.processorOffsets procName symbol seq }.setPhase
        j g .offsetWritten)
  | .offsetWritten =>
    match g.eventCtx with
    | some eventCtx =>
      if 0 ≤ eventCtx.offset then
        some ({ s with
          kafkaOffsets := update s.kafkaOffsets procName
            (update (s.kafkaOffsets procName) symbol eventCtx.offset) }.setPhase
              j g .kafkaWritten)
      else some (s.setPhase j g .kafkaWritten)
    | none => some (s.setPhase j g .kafkaWritten)
  | .kafkaWritten =>
    match s.checkpointMgr, g.eventCtx with
    | none, _ => some (s.setPhase j g .recorded)
    -- `eventCtx.StateChecksum` of a nil context: the panic ends the process
    | some _, none => none
    | some cm, some eventCtx =>
      let cp := eventCtx.checkpoint procName g.event input.now
      some
        ({ s with checkpointMgr := some (cm.recordEventProcessed cp) }.setPhase j g .recorded)
  | .recorded =>
    some ({ s with processedEventCount := s.processedEventCount + 1 }.setPhase j g .unlocking)
  | .unlocking =>
    some ({ s with procSymLocks := update s.procSymLocks key none }.setPhase j g .done)
  | .done => none

def step : PipelineAction → Option PipelineState
  | .processEvent event => some { s with calls := s.calls ++ [⟨event, none, [], .appending⟩] }
  | .processEventWithContext eventCtx =>
    let phase :=
      if eventCtx.isValid then .appending
      else .returned (some "event context is invalid")
    some { s with calls := s.calls ++ [⟨eventCtx.event, some eventCtx, [], phase⟩] }
  | .append k err =>
    match s.calls[k]? with
    | some ⟨event, eventCtx, errChan, .appending⟩ =>
      match err with
      | some err =>
        some { s with
          failedEventCount := s.failedEventCount + 1
          calls := s.calls.set k ⟨event, eventCtx, errChan, .returned (some err)⟩ }
      | none =>
        some { s with
          log := s.log ++ [event]
          calls := s.calls.set k ⟨event, eventCtx, errChan, .dispatching⟩
          goroutines := s.goroutines ++ (List.range s.processors.length).map fun i =>
            ⟨k, i, event, eventCtx, .waiting⟩ }
    | _ => none
  | .advance j input =>
    match s.goroutines[j]? with
    | some g => s.advance j g input
    | none => none
  | .finish k =>
    match s.calls[k]? with
    | some ⟨event, eventCtx, errChan, .dispatching⟩ =>
      -- `wg.Wait()`; the first error in the channel is returned
      if ∀ g ∈ s.goroutines, g.call = k → g.phase = .done then
        some { s with
          calls := s.calls.set k ⟨event, eventCtx, errChan, .returned errChan.head?⟩ }
      else none
    | _ => none

end PipelineState

def registered (names : List String) (checkpointMgr : Option CheckpointManager) : PipelineState :=
  names.foldl registerProcessor (newPipelineState checkpointMgr)

/-! ## One goroutine at a time -/

def PipelineState.procName (s : PipelineState) (g : Goroutine) : String := s.nameOf g.proc

def PipelineState.keyOf (s : PipelineState) (g : Goroutine) : String :=
  lockKey (s.procName g) g.event.symbol

inductive GoroutineMove (s : PipelineState) (j : Nat) (g : Goroutine) : PipelineState → Prop
  | lock (hphase : g.phase = .waiting) (hfree : s.procSymLocks (s.keyOf g) = none) :
      GoroutineMove s j g ({ s with
        procSymLocks := update s.procSymLocks (s.keyOf g) (some j) }.setPhase j g .locked)
  | skip (hphase : g.phase = .locked)
      (hle : g.event.eventSeq ≤ s.processorOffsets (s.procName g) g.event.symbol) :
      GoroutineMove s j g ((s.dispatched g none).setPhase j g .unlocking)
  | call (hphase : g.phase = .locked)
      (hlt : s.processorOffsets (s.procName g) g.event.symbol < g.event.eventSeq) :
      GoroutineMove s j g (s.setPhase j g .calling)
  | fail (hphase : g.phase = .calling) (err : String) :
      GoroutineMove s j g ((s.dispatched g (some err)).setPhase j g (.failing err))
  | succeed (hphase : g.phase = .calling) :
      GoroutineMove s j g ((s.dispatched g none).setPhase j g .succeeded)
  | writeOffset (hphase : g.phase = .succeeded) : GoroutineMove s j g ({ s with
        processorOffsets := setOffset s.processorOffsets (s.procName g) g.event.symbol
          g.event.eventSeq }.setPhase j g .offsetWritten)
  | quiet {s' : PipelineState} (phase : DispatchPhase) (hunder : g.phase.underLock = true)
      (hfrom : g.phase ≠ .succeeded) (hto : phase ≠ .succeeded ∧ phase ≠ .calling)
      (hprocessors : s'.processors = s.processors)
      (hgoroutines : s'.goroutines = s.goroutines.set j { g with phase := phase })
      (hlocks : s'.procSymLocks = s.procSymLocks)
      (hoffsets : s'.processorOffsets = s.processorOffsets) (hhistory : s'.history = s.history)
      (hcounted : s'.processedEventCount + (if phase.uncounted then 1 else 0) =
        s.processedEventCount + (if g.phase.uncounted then 1 else 0)) : GoroutineMove s j g s'
  | unlock (hphase : g.phase = .unlocking) : GoroutineMove s j g ({ s with
        procSymLocks := update s.procSymLocks (s.keyOf g) none }.setPhase j g .done)

theorem PipelineState.advance_move {s s' : PipelineState} {j : Nat} {g : Goroutine}
    {input : DispatchInput} (hstep : s.advance j g input = some s') : GoroutineMove s j g s' := by
  obtain ⟨call, proc, event, eventCtx, phase⟩ := g
  unfold advance at hstep
  cases phase with
  | waiting =>
    dsimp only at hstep
    split at hstep
    next hfree =>
      cases hstep
      exact .lock rfl hfree
    next => cases hstep
  | locked =>
    dsimp only at hstep
    split at hstep
    next hle =>
      cases hstep
      exact .skip rfl hle
    next hlt =>
      cases hstep
      exact .call rfl (Nat.not_le.mp hlt)
  | calling =>
    dsimp only at hstep
    split at hstep
    next err _ =>
      cases hstep
      exact .fail rfl err
    next =>
      cases hstep
      exact .succeed rfl
  | succeeded =>
    cases hstep
    exact .writeOffset rfl
  | unlocking =>
    cases hstep
    exact .unlock rfl
  | done => cases hstep
  | failing | recorded =>
    cases hstep
    exact .quiet .unlocking rfl nofun ⟨nofun, nofun⟩ rfl rfl rfl rfl rfl rfl
  | offsetWritten =>
    dsimp only at hstep
    split at hstep
    next =>
      split at hstep
      · cases hstep
        exact .quiet .kafkaWritten rfl nofun ⟨nofun, nofun⟩ rfl rfl rfl rfl rfl rfl
      · cases hstep
        exact .quiet .kafkaWritten rfl nofun ⟨nofun, nofun⟩ rfl rfl rfl rfl rfl rfl
    next =>
      cases hstep
      exact .quiet .kafkaWritten rfl nofun ⟨nofun, nofun⟩ rfl rfl rfl rfl rfl rfl
  | kafkaWritten =>
    dsimp only at hstep
    split at hstep
    next =>
      cases hstep
      exact .quiet .recorded rfl nofun ⟨nofun, nofun⟩ rfl rfl rfl rfl rfl rfl
    next => cases hstep
    next =>
      cases hstep
      exact .quiet .recorded rfl nofun ⟨nofun, nofun⟩ rfl rfl rfl rfl rfl rfl

def PipelineState.Alone (s : PipelineState) (j : Nat) (g : Goroutine) : Prop :=
  ∀ (k : Nat) (g' : Goroutine), s.goroutines[k]? = some g' → g'.phase.underLock = true →
    s.keyOf g' = s.keyOf g → k = j

-- The others under a lock work for another name or symbol.
theorem PipelineState.Alone.other {s : PipelineState} {j k : Nat} {g g' : Goroutine}
    (halone : s.Alone j g) (hne : k ≠ j) (hk : s.goroutines[k]? = some g')
    (hunder : g'.phase.underLock = true) : s.keyOf g' ≠ s.keyOf g ∧
      ¬ (s.procName g = s.procName g' ∧ g.event.symbol = g'.event.symbol) := by
  have hkey : s.keyOf g' ≠ s.keyOf g := fun hkey => hne (halone k g' hk hunder hkey)
  refine ⟨hkey, fun hsame => hkey ?_⟩
  unfold keyOf
  rw [hsame.1, hsame.2]

structure PipelineOk (s : PipelineState) : Prop where
  locked : ∀ (j : Nat) (g : Goroutine), s.goroutines[j]? = some g → g.phase.underLock = true →
    s.procSymLocks (s.keyOf g) = some j
  calling : ∀ (j : Nat) (g : Goroutine), s.goroutines[j]? = some g → g.phase = .calling →
    s.processorOffsets (s.procName g) g.event.symbol < g.event.eventSeq
  pending : ∀ (j : Nat) (g : Goroutine), s.goroutines[j]? = some g → g.phase = .succeeded →
    s.processorOffsets (s.procName g) g.event.symbol < g.event.eventSeq ∧
    s.history.processorOffsets (s.procName g) g.event.symbol = g.event.eventSeq
  settled : ∀ name symbol,
      (∀ (j : Nat) (g : Goroutine), s.goroutines[j]? = some g → g.phase = .succeeded →
      ¬ (s.procName g = name ∧ g.event.symbol = symbol)) →
    s.history.processorOffsets name symbol = s.processorOffsets name symbol
  inOrder : ProcessedInOrder s.nameOf s.history
  counted : s.processedEventCount + s.goroutines.countP (fun g => g.phase.uncounted) =
    s.history.processed.length
  known : (∀ g ∈ s.goroutines, g.proc < s.processors.length) ∧
    ∀ d ∈ s.history.processed, d.1 < s.processors.length

namespace PipelineOk

variable {s s' : PipelineState} {j : Nat} {g : Goroutine}

theorem alone (h : PipelineOk s)
    (hlock : s.procSymLocks (s.keyOf g) = none ∨ s.procSymLocks (s.keyOf g) = some j) :
    s.Alone j g := by
  intro k g' hk hunder hkey
  have hheld := h.locked k g' hk hunder
  rw [hkey] at hheld
  rcases hlock with hnone | hsome
  · rw [hnone] at hheld
    cases hheld
  · rw [hsome] at hheld
    exact (Option.some.inj hheld).symm

theorem settled_of_alone (h : PipelineOk s) (hj : s.goroutines[j]? = some g) (halone : s.Alone j g)
    (hphase : g.phase ≠ .succeeded) :
    s.history.processorOffsets (s.procName g) g.event.symbol =
      s.processorOffsets (s.procName g) g.event.symbol := by
  refine h.settled _ _ fun k g' hk hsucceeded hsame => ?_
  have hkey : s.keyOf g' = s.keyOf g := by
    unfold keyOf
    rw [hsame.1, hsame.2]
  have heq := halone k g' hk (by rw [hsucceeded]; rfl) hkey
  rw [heq, hj] at hk
  cases hk
  exact hphase hsucceeded

/-- Goroutine `j` moves to another phase and changes nothing that belongs to another name or symbol.
What it does under its own name is left to the caller. -/
theorem move (h : PipelineOk s) {phase : DispatchPhase} (hj : s.goroutines[j]? = some g)
    (halone : s.Alone j g) (hprocessors : s'.processors = s.processors)
    (hgoroutines : s'.goroutines = s.goroutines.set j { g with phase := phase })
    (hlocks : ∀ key, key ≠ s.keyOf g → s'.procSymLocks key = s.procSymLocks key)
    (hheld : phase.underLock = true → s'.procSymLocks (s.keyOf g) = some j)
    (hoffsets : ∀ name symbol, ¬ (s.procName g = name ∧ g.event.symbol = symbol) →
      s'.processorOffsets name symbol = s.processorOffsets name symbol ∧
      s'.history.processorOffsets name symbol = s.history.processorOffsets name symbol)
    (hcalling : phase = .calling →
      s'.processorOffsets (s.procName g) g.event.symbol < g.event.eventSeq)
    (hpending : phase = .succeeded →
      s'.processorOffsets (s.procName g) g.event.symbol < g.event.eventSeq ∧
      s'.history.processorOffsets (s.procName g) g.event.symbol = g.event.eventSeq)
    (hsettled : phase ≠ .succeeded → s'.history.processorOffsets (s.procName g) g.event.symbol =
        s'.processorOffsets (s.procName g) g.event.symbol)
    (hinOrder : ProcessedInOrder s.nameOf s'.history)
    (hcounted : s'.processedEventCount + (if phase.uncounted then 1 else 0) +
        s.history.processed.length =
      s.processedEventCount + (if g.phase.uncounted then 1 else 0) + s'.history.processed.length)
    (hknown : ∀ d ∈ s'.history.processed, d.1 < s.processors.length) : PipelineOk s' := by
  have hname : ∀ g', s'.procName g' = s.procName g' := fun g' => by
    unfold procName nameOf
    rw [hprocessors]
  have hkeyOf : ∀ g', s'.keyOf g' = s.keyOf g' := fun g' => by
    unfold keyOf
    rw [hname]
  have hcases : ∀ (k : Nat) (g' : Goroutine), s'.goroutines[k]? = some g' →
      (k = j ∧ g' = { g with phase := phase }) ∨ (k ≠ j ∧ s.goroutines[k]? = some g') :=
    fun k g' hk => Run.getElem?_set_cases (hgoroutines ▸ hk)
  refine ⟨?_, ?_, ?_, ?_, ?_, ?_, ?_, ?_⟩
  · intro k g' hk hunder
    rw [hkeyOf]
    rcases hcases k g' hk with ⟨rfl, rfl⟩ | ⟨hne, hold⟩
    · exact hheld hunder
    · rw [hlocks _ (halone.other hne hold hunder).1]
      exact h.locked k g' hold hunder
  · intro k g' hk hphase
    rw [hname]
    rcases hcases k g' hk with ⟨rfl, rfl⟩ | ⟨hne, hold⟩
    · exact hcalling hphase
    · rw [(hoffsets _ _ (halone.other hne hold (by rw [hphase]; rfl)).2).1]
      exact h.calling k g' hold hphase
  · intro k g' hk hphase
    rw [hname]
    rcases hcases k g' hk with ⟨rfl, rfl⟩ | ⟨hne, hold⟩
    · exact hpending hphase
    · obtain ⟨ho, hh⟩ := hoffsets _ _ (halone.other hne hold (by rw [hphase]; rfl)).2
      rw [ho, hh]
      exact h.pending k g' hold hphase
  · intro name symbol hnone
    by_cases hown : s.procName g = name ∧ g.event.symbol = symbol
    · obtain ⟨rfl, rfl⟩ := hown
      refine hsettled fun hphase => hnone j { g with phase := phase } ?_ hphase ⟨hname _, rfl⟩
      rw [hgoroutines]
      exact List.getElem?_set_self (List.getElem?_eq_some_iff.mp hj).1
    · obtain ⟨ho, hh⟩ := hoffsets name symbol hown
      rw [ho, hh]
      refine h.settled name symbol fun k g' hk hphase hsame => ?_
      by_cases hkj : k = j
      · rw [hkj, hj] at hk
        cases hk
        exact hown hsame
      · refine hnone k g' ?_ hphase ⟨(hname g').trans hsame.1, hsame.2⟩
        rwa [hgoroutines, List.getElem?_set_ne (Ne.symm hkj)]
  · have hnameOf : s'.nameOf = s.nameOf := funext fun i => by
      unfold nameOf
      rw [hprocessors]
    rwa [hnameOf]
  · obtain ⟨pre, post, heq, hset⟩ := Run.set_split hj
    have hold := h.counted
    rw [heq, countP_append, countP_cons] at hold
    rw [hgoroutines, hset, countP_append, countP_cons]
    dsimp only
    omega
  · intro g' hg'
    rw [hprocessors]
    rw [hgoroutines] at hg'
    rcases mem_or_eq_of_mem_set hg' with hmem | rfl
    · exact h.known.1 g' hmem
    · exact h.known.1 g (mem_of_getElem? hj)
  · rwa [hprocessors]

-- Offsets of another name or symbol are not touched by a dispatch.
theorem dispatched_other {err : Option String} {name symbol : String}
    (hne : ¬ (s.procName g = name ∧ g.event.symbol = symbol)) :
    (s.dispatched g err).history.processorOffsets name symbol =
      s.history.processorOffsets name symbol := by
  rcases dispatch_processed_cases s.history g.proc (s.nameOf g.proc) g.event err with
    ⟨-, -, ho⟩ | ⟨-, -, -, ho⟩
  · exact congrFun (congrFun ho name) symbol
  · refine (congrFun (congrFun ho name) symbol).trans ?_
    rw [setOffset_apply]
    exact if_neg hne

theorem quiet (h : PipelineOk s) {phase : DispatchPhase} (hj : s.goroutines[j]? = some g)
    (hprocessors : s'.processors = s.processors)
    (hgoroutines : s'.goroutines = s.goroutines.set j { g with phase := phase })
    (hunder : g.phase.underLock = true) (hfrom : g.phase ≠ .succeeded) (hto : phase ≠ .succeeded)
    (hcalling : phase = .calling →
      s.processorOffsets (s.procName g) g.event.symbol < g.event.eventSeq)
    (hlocks : s'.procSymLocks = s.procSymLocks)
    (hoffsets : s'.processorOffsets = s.processorOffsets)
    (hhistory : s'.history.processed = s.history.processed ∧
      s'.history.processorOffsets = s.history.processorOffsets)
    (hcounted : s'.processedEventCount + (if phase.uncounted then 1 else 0) =
      s.processedEventCount + (if g.phase.uncounted then 1 else 0)) : PipelineOk s' := by
  have hheld := h.locked j g hj hunder
  have halone : s.Alone j g := h.alone (.inr hheld)
  obtain ⟨hprocessed, hhistory⟩ := hhistory
  refine h.move hj halone hprocessors hgoroutines ?_ ?_ ?_ ?_ ?_ ?_ ?_ ?_ ?_
  · intro key _
    rw [hlocks]
  · intro _
    rwa [hlocks]
  · intro name symbol _
    rw [hoffsets, hhistory]
    exact ⟨rfl, rfl⟩
  · rwa [hoffsets]
  · exact fun hsucceeded => absurd hsucceeded hto
  · intro _
    rw [hoffsets, hhistory]
    exact h.settled_of_alone hj halone hfrom
  · intro name symbol
    rw [hprocessed, hhistory]
    exact h.inOrder name symbol
  · rw [hprocessed]
    omega
  · rw [hprocessed]
    exact h.known.2

theorem succeed (h : PipelineOk s) (hj : s.goroutines[j]? = some g) (hphase : g.phase = .calling) :
    PipelineOk ((s.dispatched g none).setPhase j g .succeeded) := by
  have hheld := h.locked j g hj (by rw [hphase]; rfl)
  have hlt := h.calling j g hj hphase
  have halone : s.Alone j g := h.alone (.inr hheld)
  have hsettled := h.settled_of_alone hj halone (by rw [hphase]; nofun)
  rcases dispatch_processed_cases s.history g.proc (s.nameOf g.proc) g.event none with
    ⟨hskip | hfailed, -⟩ | ⟨-, -, hprocessed, hoffsets⟩
  · unfold procName at hsettled hlt
    omega
  · exact absurd rfl hfailed
  · refine h.move hj halone rfl rfl (fun _ _ => rfl) (fun _ => hheld)
      (fun name symbol hne => ⟨rfl, dispatched_other hne⟩) nofun (fun _ => ⟨hlt, ?_⟩)
      (fun hne => absurd rfl hne) (h.inOrder.dispatch g.proc g.event none) ?_ ?_
    · refine (congrFun (congrFun hoffsets _) _).trans ?_
      rw [setOffset_apply]
      exact if_pos ⟨rfl, rfl⟩
    · have hlength := congrArg List.length hprocessed
      rw [length_append, length_singleton] at hlength
      rw [hphase]
      change s.processedEventCount + 1 + _ = s.processedEventCount + 0 +
        (s.history.dispatch g.proc (s.nameOf g.proc) g.event none).processed.length
      omega
    · intro d hd
      change d ∈ (s.history.dispatch g.proc (s.nameOf g.proc) g.event none).processed at hd
      rw [hprocessed] at hd
      rcases mem_append.mp hd with hd | hd
      · exact h.known.2 d hd
      · rw [mem_singleton.mp hd]
        exact h.known.1 g (mem_of_getElem? hj)

theorem advance (h : PipelineOk s) (hj : s.goroutines[j]? = some g)
    (hmove : GoroutineMove s j g s') : PipelineOk s' := by
  have hheld := h.locked j g hj
  cases hmove with
  | lock hphase hfree =>
    have halone : s.Alone j g := h.alone (.inl hfree)
    refine h.move hj halone rfl rfl (fun key hne => update_of_ne hne _ _)
      (fun _ => update_self _ _ _) (fun _ _ _ => ⟨rfl, rfl⟩) nofun nofun
      (fun _ => h.settled_of_alone hj halone (by rw [hphase]; nofun)) h.inOrder ?_ h.known.2
    rw [hphase]
    rfl
  | skip hphase hle =>
    have hunder : g.phase.underLock = true := by rw [hphase]; rfl
    have hfrom : g.phase ≠ .succeeded := by rw [hphase]; nofun
    have hsettled := h.settled_of_alone hj (h.alone (.inr (hheld hunder))) hfrom
    refine h.quiet hj rfl rfl hunder hfrom nofun nofun rfl rfl ?_ (by rw [hphase]; rfl)
    -- the history skips the event, too
    rcases dispatch_processed_cases s.history g.proc (s.nameOf g.proc) g.event none with
      ⟨-, hprocessed, hoffsets⟩ | ⟨hlt, -⟩
    · exact ⟨hprocessed, hoffsets⟩
    · unfold procName at hsettled hle
      omega
  | call hphase hlt =>
    exact h.quiet hj rfl rfl (by rw [hphase]; rfl) (by rw [hphase]; nofun) nofun (fun _ => hlt)
      rfl rfl ⟨rfl, rfl⟩ (by rw [hphase]; rfl)
  | fail hphase err =>
    refine h.quiet hj rfl rfl (by rw [hphase]; rfl) (by rw [hphase]; nofun) nofun nofun rfl rfl ?_
      (by rw [hphase]; rfl)
    rcases dispatch_processed_cases s.history g.proc (s.nameOf g.proc) g.event (some err) with
      ⟨-, hprocessed, hoffsets⟩ | ⟨-, hnone, -⟩
    · exact ⟨hprocessed, hoffsets⟩
    · cases hnone
  | succeed hphase => exact h.succeed hj hphase
  | writeOffset hphase =>
    obtain ⟨-, hpending⟩ := h.pending j g hj hphase
    have hheld := hheld (by rw [hphase]; rfl)
    refine h.move hj (h.alone (.inr hheld)) rfl rfl (fun _ _ => rfl) (fun _ => hheld)
      (fun name symbol hne => ⟨?_, rfl⟩) nofun nofun (fun _ => hpending.trans ?_) h.inOrder ?_
      h.known.2
    · refine (setOffset_apply ..).trans ?_
      exact if_neg hne
    · refine Eq.symm ((setOffset_apply ..).trans ?_)
      exact if_pos ⟨rfl, rfl⟩
    · rw [hphase]
      rfl
  | quiet phase hunder hfrom hto hprocessors hgoroutines hlocks hoffsets hhistory hcounted =>
    refine h.quiet hj hprocessors hgoroutines hunder hfrom hto.1
      (fun hcalling => absurd hcalling hto.2) hlocks hoffsets ?_ hcounted
    rw [hhistory]
    exact ⟨rfl, rfl⟩
  | unlock hphase =>
    have halone : s.Alone j g := h.alone (.inr (hheld (by rw [hphase]; rfl)))
    have hsettled := h.settled_of_alone hj halone (by rw [hphase]; nofun)
    refine h.move hj halone rfl rfl (fun key hne => update_of_ne hne _ _) nofun
      (fun _ _ _ => ⟨rfl, rfl⟩) nofun nofun (fun _ => hsettled) h.inOrder ?_ h.known.2
    rw [hphase]
    rfl

theorem spawn (h : PipelineOk s) (log : List MatchingEngineEvent) (calls : List PipelineCall)
    {added : List Goroutine}
    (hadded : ∀ g ∈ added, g.phase = .waiting ∧ g.proc < s.processors.length) :
    PipelineOk { s with log := log, calls := calls, goroutines := s.goroutines ++ added } := by
  have hold : ∀ (j : Nat) (g : Goroutine), (s.goroutines ++ added)[j]? = some g →
      g.phase ≠ .waiting → s.goroutines[j]? = some g := by
    intro j g hj hphase
    rcases Nat.lt_or_ge j s.goroutines.length with hlt | hge
    · rwa [List.getElem?_append_left hlt] at hj
    · rw [List.getElem?_append_right hge] at hj
      exact absurd (hadded g (mem_of_getElem? hj)).1 hphase
  refine ⟨?_, ?_, ?_, ?_, h.inOrder, ?_, ?_, h.known.2⟩
  · intro j g hj hunder
    refine h.locked j g (hold j g hj ?_) hunder
    intro hwaiting
    rw [hwaiting] at hunder
    cases hunder
  · intro j g hj hphase
    exact h.calling j g (hold j g hj (by rw [hphase]; nofun)) hphase
  · intro j g hj hphase
    exact h.pending j g (hold j g hj (by rw [hphase]; nofun)) hphase
  · intro name symbol hnone
    refine h.settled name symbol fun j g hj => hnone j g ?_
    rwa [List.getElem?_append_left (List.getElem?_eq_some_iff.mp hj).1]
  · have hzero : added.countP (fun g => g.phase.uncounted) = 0 := by
      refine countP_eq_zero.mpr fun g hg => ?_
      rw [(hadded g hg).1]
      nofun
    rw [countP_append, hzero, Nat.add_zero]
    exact h.counted
  · intro g hg
    rcases mem_append.mp hg with hg | hg
    · exact h.known.1 g hg
    · exact (hadded g hg).2

theorem step (h : PipelineOk s) {action : PipelineAction} (hstep : s.step action = some s') :
    PipelineOk s' := by
  cases action with
  | processEvent | processEventWithContext =>
    cases hstep
    exact ⟨h.locked, h.calling, h.pending, h.settled, h.inOrder, h.counted, h.known⟩
  | append k err =>
    rw [PipelineState.step] at hstep
    split at hstep
    next event eventCtx errChan hk =>
      split at hstep
      next =>
        cases hstep
        exact ⟨h.locked, h.calling, h.pending, h.settled, h.inOrder, h.counted, h.known⟩
      next =>
        cases hstep
        refine h.spawn _ _ fun g hg => ?_
        obtain ⟨i, hi, rfl⟩ := mem_map.mp hg
        exact ⟨rfl, mem_range.mp hi⟩
    next => cases hstep
  | advance j input =>
    rw [PipelineState.step] at hstep
    split at hstep
    next g hj => exact h.advance hj (advance_move hstep)
    next => cases hstep
  | finish k =>
    rw [PipelineState.step] at hstep
    split at hstep
    next =>
      split at hstep
      next =>
        cases hstep
        exact ⟨h.locked, h.calling, h.pending, h.settled, h.inOrder, h.counted, h.known⟩
      next => cases hstep
    next => cases hstep

end PipelineOk

namespace PipelineState

variable {s s' : PipelineState}

theorem advance_offsets {j : Nat} {g : Goroutine} (hmove : GoroutineMove s j g s') :
    s'.processors = s.processors ∧ (s'.processorOffsets = s.processorOffsets ∨
      g.phase = .succeeded ∧ s'.processorOffsets =
        setOffset s.processorOffsets (s.procName g) g.event.symbol g.event.eventSeq) := by
  cases hmove with
  | writeOffset hphase => exact ⟨rfl, .inr ⟨hphase, rfl⟩⟩
  | quiet _ _ _ _ hprocessors _ _ hoffsets => exact ⟨hprocessors, .inl hoffsets⟩
  | lock | skip | call | fail | succeed | unlock => exact ⟨rfl, .inl rfl⟩

theorem step_offsets {action : PipelineAction} (hstep : s.step action = some s') :
    s'.processors = s.processors ∧ (s'.processorOffsets = s.processorOffsets ∨
      ∃ (j : Nat) (g : Goroutine), s.goroutines[j]? = some g ∧ g.phase = .succeeded ∧
        s'.processorOffsets =
          setOffset s.processorOffsets (s.procName g) g.event.symbol g.event.eventSeq) := by
  cases action with
  | processEvent | processEventWithContext =>
    cases hstep
    exact ⟨rfl, .inl rfl⟩
  | append k err =>
    rw [step] at hstep
    split at hstep
    · split at hstep <;>
        · cases hstep
          exact ⟨rfl, .inl rfl⟩
    · cases hstep
  | advance j input =>
    rw [step] at hstep
    split at hstep
    next g hj =>
      obtain ⟨hprocessors, hsame | ⟨hphase, heq⟩⟩ := advance_offsets (advance_move hstep)
      · exact ⟨hprocessors, .inl hsame⟩
      · exact ⟨hprocessors, .inr ⟨j, g, hj, hphase, heq⟩⟩
    next => cases hstep
  | finish k =>
    rw [step] at hstep
    split at hstep
    · split at hstep
      · cases hstep
        exact ⟨rfl, .inl rfl⟩
      · cases hstep
    · cases hstep

end PipelineState

theorem PipelineOk.offset_le {s s' : PipelineState} (h : PipelineOk s) {action : PipelineAction}
    (hstep : s.step action = some s') (processorName symbol : String) :
    s.getProcessorOffset processorName symbol ≤ s'.getProcessorOffset processorName symbol := by
  obtain ⟨hprocessors, hsame | ⟨j, g, hj, hphase, heq⟩⟩ := step_offsets hstep
  · unfold getProcessorOffset
    rw [hprocessors, hsame]
  · have hlt := (h.pending j g hj hphase).1
    unfold getProcessorOffset
    rw [hprocessors, heq, setOffset_apply]
    split
    · split
      next hown =>
        obtain ⟨rfl, rfl⟩ := hown
        omega
      next => exact Nat.le_refl _
    · exact Nat.le_refl _

theorem registered_eq (names : List String) (checkpointMgr : Option CheckpointManager) :
    registered names checkpointMgr =
      { newPipelineState checkpointMgr with processors := names } := by
  induction names using List.reverseRecOn with
  | nil => rfl
  | append_singleton names name ih =>
    rw [registered, foldl_append]
    change (registered names checkpointMgr).registerProcessor name = _
    rw [ih]
    have hoffsets : update (fun (_ _ : String) => 0) name (fun _ => 0) = fun _ _ => 0 :=
      update_eq_self name _
    have hkafka : update (fun (_ _ : String) => (0 : Int)) name (fun _ => 0) =
        fun _ _ => 0 := update_eq_self name _
    unfold registerProcessor newPipelineState
    rw [hoffsets, hkafka]

def submittedBTC (seq : Nat) : MatchingEngineEvent :=
  .orderSubmitted ⟨seq, 0, "o", "u", "BTC/USDT", "buy", 0, 0, "submitted"⟩

end CexHertz
