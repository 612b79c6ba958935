import Mathlib.Data.List.Nodup
import Mistl.FolderPaths
import Mistl.Lib.Journal
/-!
# BotOutbox — runs of a bot pipeline

A run retries what its outbox holds, then imports what its source offers.  Each write of the outbox, of the processed ids and
of the items log and each external send is an effect of its own, after any of which the process may stop; a step that fails
ends the run there too.
-/
namespace Mistl.Bot

open Folder (trim)
open Journal (Durable Work Ran after)

/-! ## What is kept -/

structure WebhookHeader where
  name : String
  value : String

structure Webhook where
  url : String
  includeAudio : Bool
  maxAudioBytes : Option Nat
  method : Option String
  bodyTemplate : Option String
  sign : Bool
  includeBody : Bool
  headers : List WebhookHeader

inductive SinkConfig where
  | chatPost (room : String)
  | webhook (config : Webhook)
  | articlePublish (room : String)

structure SourceLink where
  title : String
  url : String

structure Article where
  id : String
  title : String
  excerpt : String
  body : String
  sourceLinks : List SourceLink
  authorName : String
  createdAt : Int

structure AudioOutcome where
  cid : String
  mime : String
  size : Nat

structure TransformOutcome where
  script : Option String
  title : Option String
  lang : Option String
  audio : Option AudioOutcome

structure SinkOutcome where
  kind : String
  target : String
  ok : Bool
  error : Option String

structure PendingDelivery where
  sourceId : String
  article : Article
  outcome : TransformOutcome
  succeeded : Table String SinkOutcome
  lastAttempt : Int

structure DeliveredItem where
  pipelineId : String
  itemId : String
  title : String
  deliveredAt : String
  sinks : List SinkOutcome

structure Candidate where
  id : String
  article : Option Article

def capacity : Nat := 100

def processedIdsCap : Nat := 5000

def itemsLogCap : Nat := 200

def maxItemsPerRun : Nat := 5

/-- The files of a pipeline; one that is missing is empty. -/
structure Disk where
  outbox : List PendingDelivery
  processed : List String
  items : List DeliveredItem

def Disk.empty : Disk := ⟨[], [], []⟩

/-- What a run does that lasts: it replaces the outbox or the processed ids, sends an item to the occurrence of a sink, or
appends to the items log. -/
inductive Event where
  | save (queue : List PendingDelivery)
  | mark (ids : List String)
  | deliver (id key : String)
  | append (item : DeliveredItem)

def Disk.apply (d : Disk) : Event → Disk
  | .save queue => { d with outbox := queue }
  | .mark ids => { d with processed := ids }
  | .deliver _ _ => d
  | .append item => { d with items := (d.items ++ [item]).drop (d.items.length + 1 - itemsLogCap) }

instance : Durable Disk Event := ⟨Disk.apply⟩

/-- `deliver` and the writes of a run's steps -/
abbrev Run (α : Type) : Type := Work Disk Event α

/-- What a run meets: its configuration, the times, what the sinks answer to an attempt (none within the time), and what the
transforms and the source come to. -/
structure Visit where
  pipelineId : String
  sinks : List SinkConfig
  now : Nat → Int
  deliveredAt : Nat → String
  deliver : Nat → Nat → Option SinkOutcome
  resolves : Except String Unit
  candidates : Except String (List Candidate)
  transform : Nat → Article → Except String TransformOutcome

/-! ## The outbox -/

def markProcessed (newIds : List String) : Run Unit := do
  if newIds.isEmpty then return ()
  let d ← Work.read
  let ids := newIds.foldl (fun ids id => if ids.contains id then ids else ids ++ [id]) d.processed
  Work.emit (.mark (ids.drop (ids.length - processedIdsCap)))

def enqueue (queue : List PendingDelivery) (sourceId : String) (article : Article) (outcome : TransformOutcome) :
    Run (List PendingDelivery) := do
  if queue.any (fun entry => entry.sourceId == sourceId) then return queue
  if capacity ≤ queue.length then
    Work.fail "bot delivery queue is full (100); restore failing sinks before importing more items"
  else
    Work.emit (.save (queue ++ [⟨sourceId, article, outcome, ∅, 0⟩]))
    return queue ++ [⟨sourceId, article, outcome, ∅, 0⟩]

def timedOut (sink : SinkConfig) : SinkOutcome := let (kind, target) := match sink with
    | .chatPost room => ("chat-post", room)
    | .articlePublish room => ("article-publish", room)
    | .webhook config => ("webhook", config.url)
  ⟨kind, String.ofList (trim target.toList), false, some "delivery timed out after 120 seconds; retained for retry"⟩

section Attempt
variable (sha256 : SinkConfig → List UInt8)

def digest (sink : SinkConfig) : String :=
  String.ofList ((sha256 sink).flatMap (fun b => [Nat.digitChar (b.toNat / 16), Nat.digitChar (b.toNat % 16)]))

def receiptKey (digest : String) (occurrence : Nat) : String := digest ++ ":" ++ toString occurrence

def attemptSinks (v : Visit) (attempted index : Nat) : Nat → Table String Nat → List PendingDelivery → List SinkConfig →
    Run (List PendingDelivery × List SinkOutcome)
  | _, _, queue, [] => return (queue, [])
  | position, occurrences, queue, sink :: sinks => do
    let occurrence := (occurrences.get (digest sha256 sink)).getD 0
    let key := receiptKey (digest sha256 sink) occurrence
    let occurrences := occurrences.insert (digest sha256 sink) (occurrence + 1)
    match queue[index]? with
    | none => Work.fail "index out of bounds"
    | some entry =>
      match entry.succeeded.get key with
      | some previous =>
        let (queue, outcomes) ← attemptSinks v attempted index (position + 1) occurrences queue sinks
        return (queue, previous :: outcomes)
      | none =>
        Work.emit (.deliver entry.sourceId key)
        let outcome := (v.deliver attempted position).getD (timedOut sink)
        if outcome.ok then
          let queue := queue.modify index (fun e => { e with succeeded := e.succeeded.insert key outcome })
          Work.emit (.save queue)
          let (queue, outcomes) ← attemptSinks v attempted index (position + 1) occurrences queue sinks
          return (queue, outcome :: outcomes)
        else
          let (queue, outcomes) ← attemptSinks v attempted index (position + 1) occurrences queue sinks
          return (queue, outcome :: outcomes)

def attempt (v : Visit) (attempted : Nat) (queue : List PendingDelivery) (index : Nat) :
    Run (List PendingDelivery × DeliveredItem) := do
  if v.sinks.isEmpty then Work.fail "bot pipeline has no delivery sinks; pending content retained"
  else
    let queue := queue.modify index (fun e => { e with lastAttempt := v.now attempted })
    Work.emit (.save queue)
    let (queue, outcomes) ← attemptSinks sha256 v attempted index 0 ∅ queue v.sinks
    match queue[index]? with
    | none => Work.fail "index out of bounds"
    | some entry =>
      let item : DeliveredItem := ⟨v.pipelineId, entry.sourceId, entry.article.title, v.deliveredAt attempted, outcomes⟩
      if outcomes.all SinkOutcome.ok then
        markProcessed [entry.sourceId]
        Work.emit (.save (queue.eraseIdx index))
        return (queue.eraseIdx index, item)
      else return (queue, item)

/-! ## A run -/

def deliverQueued (v : Visit) (attempted : Nat) (queue : List PendingDelivery) (index : Nat) : Run (List PendingDelivery × Bool) := do
  let (queue, item) ← attempt sha256 v attempted queue index
  Work.emit (.append item)
  return (queue, item.sinks.all SinkOutcome.ok)

structure Progress where
  queue : List PendingDelivery
  attempted : Nat
  failed : Bool
  fetched : Nat
  delivered : Nat

def Progress.attempt (p : Progress) (queue : List PendingDelivery) (complete : Bool) : Progress := { p with
    queue := queue
    attempted := p.attempted + 1
    failed := p.failed || !complete
    delivered := p.delivered + if complete then 1 else 0 }

def retryAll (v : Visit) : List String → Progress → Run Progress
  | [], p => return p
  | id :: ids, p => do
    match p.queue.findIdx? (fun entry => entry.sourceId == id) with
    | none => Work.fail "queued retry"
    | some index =>
      let (queue, complete) ← deliverQueued sha256 v p.attempted p.queue index
      retryAll v ids (p.attempt queue complete)

def importAll (v : Visit) : List Candidate → Progress → Run Progress
  | [], p => return p
  | candidate :: candidates, p => do
    if maxItemsPerRun ≤ p.attempted ∨ capacity ≤ p.queue.length then return p
    else if p.queue.any (fun entry => entry.sourceId == candidate.id) then importAll v candidates p
    else
      match candidate.article with
      | some article =>
        let outcome ← Work.lift (v.transform p.attempted article)
        let queue ← enqueue p.queue candidate.id article outcome
        let (queue, complete) ← deliverQueued sha256 v p.attempted queue (queue.length - 1)
        importAll v candidates ({ p with fetched := p.fetched + 1 }.attempt queue complete)
      | none =>
        markProcessed [candidate.id]
        importAll v candidates { p with attempted := p.attempted + 1 }

/-- What a run starts from: what the outbox holds that is not processed, in the order of the last attempts. -/
def pendingOf (d : Disk) : List PendingDelivery := (d.outbox.filter (fun entry => !d.processed.contains entry.sourceId)).insertionSort
    fun a b => a.lastAttempt ≤ b.lastAttempt

def runPipelineWork (v : Visit) : Run Progress := do
  if v.sinks.isEmpty then Work.fail "bot pipeline has no delivery sinks; configure a sink before running"
  else
    let d ← Work.read
    Work.emit (.save (pendingOf d))
    let retryIds := ((pendingOf d).take (maxItemsPerRun - 2)).map PendingDelivery.sourceId
    let p ← retryAll sha256 v retryIds ⟨pendingOf d, 0, false, 0, 0⟩
    if capacity ≤ p.queue.length then Work.fail "bot delivery queue is full; failed items retained for retry"
    else
      Work.lift v.resolves
      let candidates ← Work.lift v.candidates
      let p ← importAll sha256 v candidates p
      if p.failed || !p.queue.isEmpty then
        Work.fail (toString p.queue.length ++
          " item(s) pending delivery; failed sinks will retry on the next run (see bot.items)")
      else return p

/-- Runs one after another, each of which stops after some of its effects: what they do, with the run it is done in. -/
def history : Disk → List (Visit × Nat) → List (Visit × Event)
  | _, [] => []
  | d, (v, n) :: runs =>
    let events := (runPipelineWork sha256 v d).events.take n
    events.map (fun e => (v, e)) ++ history (after d events) runs

def sinkKeys : Table String Nat → List SinkConfig → List String
  | _, [] => []
  | occurrences, sink :: sinks =>
    receiptKey (digest sha256 sink) ((occurrences.get (digest sha256 sink)).getD 0) ::
      sinkKeys (occurrences.insert (digest sha256 sink) ((occurrences.get (digest sha256 sink)).getD 0 + 1)) sinks

end Attempt

end Mistl.Bot
