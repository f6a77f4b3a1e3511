import NaotoExchange.Lib.RingIndex

/-!
# The single-producer single-consumer queue

`spsc_queue.hpp`: `SpscQueue` with its `SpscQueueProducer` and `SpscQueueConsumer`. A step is what
one thread does at once: it loads the other side's index, accesses a slot, or stores its own index;
tests of the private indices belong to the step before them. A timed call may give up whenever it
would load again.

`pushed` and `popped` record what the calls have pushed and popped so far.
-/

namespace Naoto

open RingIndex

/-- The two shared indices and the slots. -/
structure SpscQueue (T : Type) where
  head : UInt64
  tail : UInt64
  buffer : UInt64 → T

namespace SpscQueue

/-- The three ways to push. -/
inductive PushCall where
  | tryPush
  | push
  | timedPush
  deriving DecidableEq

/-- The three ways to pop. -/
inductive PopCall where
  | tryPop
  | pop
  | timedPop
  deriving DecidableEq

/-- What the producer does next. -/
inductive ProducerPc (T : Type) where
  | idle
  | loadHead (call : PushCall) (item : T)
  | writeSlot (item : T)
  | storeTail (item : T)

/-- Where the consumer is in its call. -/
inductive ConsumerPc (T : Type) where
  | idle
  | loadTail (call : PopCall)
  | readSlot
  | storeHead (item : T)

/-- The producer, with what it has last seen of `Head`. -/
structure Producer (T : Type) where
  localHead : UInt64
  localTail : UInt64
  pc : ProducerPc T

/-- The consumer, with what it has last seen of `Tail`. -/
structure Consumer (T : Type) where
  localHead : UInt64
  localTail : UInt64
  pc : ConsumerPc T

/-- The queue and its two threads. -/
structure System (T : Type) where
  queue : SpscQueue T
  producer : Producer T
  consumer : Consumer T
  pushed : List T
  popped : List T

section
variable {T : Type}

/-- Both sides constructed on an idle queue. -/
def System.start (v₀ : UInt64) (memory : UInt64 → T) : System T where
  queue := ⟨v₀, v₀, memory⟩
  producer := ⟨v₀, v₀, .idle⟩
  consumer := ⟨v₀, v₀, .idle⟩
  pushed := []
  popped := []

/-- What has been pushed and not popped. -/
def System.outstanding (s : System T) : List T := s.pushed.drop s.popped.length

/-- What a step shows. -/
inductive Label (T : Type) where
  | callPush (call : PushCall) (item : T)
  | pushed (item : T)
  | pushFailed (call : PushCall)
  | callPop (call : PopCall)
  | popped (item : T)
  | popFailed (call : PopCall)
  | silent

variable (Q : Capacity)

/-- `localTail - localHead >= Size`. -/
def Producer.looksFull (p : Producer T) : Prop := Q.size ≤ p.localTail - p.localHead

instance (p : Producer T) : Decidable (p.looksFull Q) := inferInstanceAs (Decidable (_ ≤ _))

/-- As far as the consumer knows, nothing is there. -/
def Consumer.looksEmpty (c : Consumer T) : Prop := c.localTail = c.localHead

instance (c : Consumer T) : Decidable c.looksEmpty := inferInstanceAs (Decidable (_ = _))

/-- The producer after a load of `Head`. -/
def System.loadedHead (s : System T) : Producer T := { s.producer with localHead := s.queue.head }

/-- The consumer after a load of `Tail`. -/
def System.loadedTail (s : System T) : Consumer T := { s.consumer with localTail := s.queue.tail }

/-- The steps of the producer. -/
inductive ProducerStep (s : System T) : Label T → System T → Prop
  | call (call : PushCall) (item : T) : s.producer.pc = .idle →
      ProducerStep s (.callPush call item) { s with producer := { s.producer with
        pc := if s.producer.looksFull Q then .loadHead call item else .writeSlot item } }
  | load {call : PushCall} {item : T} : s.producer.pc = .loadHead call item →
      ¬ s.loadedHead.looksFull Q →
      ProducerStep s .silent { s with producer := { s.loadedHead with pc := .writeSlot item } }
  | full {item : T} : s.producer.pc = .loadHead .tryPush item → s.loadedHead.looksFull Q →
      ProducerStep s (.pushFailed .tryPush) { s with producer := { s.loadedHead with pc := .idle } }
  | retry {call : PushCall} {item : T} : s.producer.pc = .loadHead call item → call ≠ .tryPush →
      s.loadedHead.looksFull Q → ProducerStep s .silent { s with producer := s.loadedHead }
  | timeout {item : T} : s.producer.pc = .loadHead .timedPush item →
      ProducerStep s (.pushFailed .timedPush) { s with producer := { s.producer with pc := .idle } }
  | write {item : T} : s.producer.pc = .writeSlot item →
      ProducerStep s .silent { s with
        queue := { s.queue with
          buffer := Function.update s.queue.buffer (Q.slot s.producer.localTail) item }
        producer := { s.producer with pc := .storeTail item } }
  | store {item : T} : s.producer.pc = .storeTail item →
      ProducerStep s (.pushed item) { s with
        queue := { s.queue with tail := s.producer.localTail + 1 }
        producer := { s.producer with localTail := s.producer.localTail + 1, pc := .idle }
        pushed := s.pushed ++ [item] }

/-- The steps of the consumer. -/
inductive ConsumerStep (s : System T) : Label T → System T → Prop
  | call (call : PopCall) : s.consumer.pc = .idle →
      ConsumerStep s (.callPop call) { s with consumer := { s.consumer with
        pc := if s.consumer.looksEmpty then .loadTail call else .readSlot } }
  | load {call : PopCall} : s.consumer.pc = .loadTail call → ¬ s.loadedTail.looksEmpty →
      ConsumerStep s .silent { s with consumer := { s.loadedTail with pc := .readSlot } }
  | empty : s.consumer.pc = .loadTail .tryPop → s.loadedTail.looksEmpty →
      ConsumerStep s (.popFailed .tryPop) { s with consumer := { s.loadedTail with pc := .idle } }
  | retry {call : PopCall} : s.consumer.pc = .loadTail call → call ≠ .tryPop →
      s.loadedTail.looksEmpty → ConsumerStep s .silent { s with consumer := s.loadedTail }
  | timeout : s.consumer.pc = .loadTail .timedPop →
      ConsumerStep s (.popFailed .timedPop) { s with consumer := { s.consumer with pc := .idle } }
  | read : s.consumer.pc = .readSlot →
      ConsumerStep s .silent { s with consumer := { s.consumer with
        pc := .storeHead (s.queue.buffer (Q.slot s.consumer.localHead)) } }
  | store {item : T} : s.consumer.pc = .storeHead item →
      ConsumerStep s (.popped item) { s with
        queue := { s.queue with head := s.consumer.localHead + 1 }
        consumer := { s.consumer with localHead := s.consumer.localHead + 1, pc := .idle }
        popped := s.popped ++ [item] }

/-- What a call that is under way has to push. -/
def ProducerPc.held : ProducerPc T → Option T
  | .idle => none
  | .loadHead _ item | .writeSlot item | .storeTail item => some item

/-- `TryPush` from beginning to end. -/
def System.tryPush (s : System T) (item : T) : Bool × System T :=
  let p := if s.producer.looksFull Q then s.loadedHead else s.producer
  if p.looksFull Q then (false, { s with producer := p })
  else (true, { s with
    queue := { s.queue with
      buffer := Function.update s.queue.buffer (Q.slot p.localTail) item
      tail := p.localTail + 1 }
    producer := { p with localTail := p.localTail + 1 }
    pushed := s.pushed ++ [item] })

/-- A step of either thread. -/
def Step (s : System T) (l : Label T) (s' : System T) : Prop :=
  ProducerStep Q s l s' ∨ ConsumerStep Q s l s'

/-- The states that some interleaving reaches. -/
def Reaches : System T → System T → Prop := Relation.ReflTransGen fun s s' => ∃ l, Step Q s l s'

end

end SpscQueue

end Naoto
