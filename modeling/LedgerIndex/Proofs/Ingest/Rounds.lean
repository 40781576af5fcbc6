import LedgerIndex.Proofs.Ingest.Reachable
import LedgerIndex.Proofs.Ingest.Workers

/-! # Rounds of workers

A daemon has one worker for each channel, however often the channel is named (`Daemon.find?_hired`).
In a round every worker has its turn, one after the other in one session.  On each channel a round
is the turn of its worker in the session that it finds (`Daemon.sessionAt`), or nothing where there
is no worker, and leaves what that turn leaves (`Daemon.Staff.round`). -/

namespace LedgerIndex

open Ingest

/-! ### The channels of an engine -/

namespace Entries

variable {κ α : Type} [DecidableEq κ]

theorem mem_keys {key : κ} {entries : List (κ × α)} :
    key ∈ entries.map Prod.fst ↔ get? key entries ≠ none := by
  induction entries with
  | nil => simp [get?]
  | cons entry rest ih =>
      obtain ⟨k, v⟩ := entry
      by_cases h : k = key
      · simp [get?, h]
      · have hne : key ≠ k := fun heq => h heq.symm
        simp [get?, h, hne, ← ih]

theorem nodup_put {entries : List (κ × α)} (h : (entries.map Prod.fst).Nodup) (key : κ)
    (value : α) : ((put key value entries).map Prod.fst).Nodup := by
  induction entries with
  | nil => simp [put]
  | cons entry rest ih =>
      obtain ⟨k, v⟩ := entry
      obtain ⟨hk, hrest⟩ := List.nodup_cons.mp h
      unfold put
      split
      · rename_i heq
        exact List.nodup_cons.mpr ⟨heq ▸ hk, hrest⟩
      · rename_i hne
        refine List.nodup_cons.mpr ⟨fun hmem => hk ?_, ih hrest⟩
        rw [mem_keys, get?_put_of_ne hne] at hmem
        exact mem_keys.mpr hmem

end Entries

namespace Engine

theorem mem_channels_start {agent : Agent} {channels : List String} {channel : String} :
    channel ∈ (start agent channels).channels ↔ channel ∈ channels := by
  unfold Engine.channels
  rw [(List.mergeSort_perm ..).mem_iff, Entries.mem_keys]
  have hingestor := ingestor?_start agent channels channel
  unfold ingestor? at hingestor
  rw [hingestor]
  split <;> simp_all

theorem nodup_channels_start (agent : Agent) (channels : List String) :
    (start agent channels).channels.Nodup := by
  unfold Engine.channels
  rw [(List.mergeSort_perm ..).nodup_iff]
  have hfold : ∀ (names : List String) (filed : List (String × Ingestor)),
      (filed.map Prod.fst).Nodup →
      ((names.foldl (fun ingestors name =>
        Entries.put name (Ingestor.start agent name) ingestors) filed).map Prod.fst).Nodup := by
    intro names
    induction names with
    | nil => exact fun _ hfiled => hfiled
    | cons name names ih => exact fun filed hfiled => ih _ (Entries.nodup_put hfiled ..)
  exact hfold channels [] List.nodup_nil

end Engine

namespace Deed

def onChannel (channel : String) (deeds : List Deed) : List Deed :=
  deeds.filter fun deed => deed.channel = channel

variable {channel : String} {deed : Deed} {deeds earlier later : List Deed}

theorem mem_onChannel : deed ∈ onChannel channel deeds ↔ deed ∈ deeds ∧ deed.channel = channel := by
  simp [onChannel]

theorem onChannel_append : onChannel channel (earlier ++ later)
    = onChannel channel earlier ++ onChannel channel later := List.filter_append ..

end Deed

/-! ### One turn -/

namespace Worker

variable {worker : Worker} {now period : Nat} {stance : Stance} {session : Session}

/-- A turn leaves what its deed leaves, and the worker where nothing is done. -/
theorem turnIn_fst : (worker.turnIn now period stance session).1
    = resume period (some worker) (worker.deed? now stance session).toList := by
  rw [deed?_eq]
  unfold turnIn
  cases stance.turn session.stopped worker.due now with
  | work => exact worker.run_tick now period session
  | stop => rfl
  | wait => rfl

theorem calls_turnIn : (worker.turnIn now period stance session).2.calls = session.calls
    ++ (worker.deed? now stance session).toList.flatMap (·.asked.filterMap ledgerQuestion?) := by
  rw [deed?_eq]
  unfold turnIn
  cases stance.turn session.stopped worker.due now with
  | work =>
      refine (worker.calls_tick now period session).trans (congrArg _ ?_)
      exact (List.append_nil _).symm
  | stop => exact (List.append_nil _).symm
  | wait => exact (List.append_nil _).symm

theorem stopped_turnIn (h : session.stopped = true) :
    (worker.turnIn now period stance session).2.stopped = true := by
  unfold turnIn
  split
  · have hon : (session.on worker.ingestor.channel).stopped = true := h
    exact Session.stopped_run _ hon
  · exact h
  · exact h

/-- The session has the request to stop that a deed sees. -/
theorem stopped_of_seesStop {deed : Deed} (h : worker.deed? now stance session = some deed)
    (hsees : deed.SeesStop) : (worker.turnIn now period stance session).2.stopped = true := by
  have hdeed := deed?_eq_some h
  rw [deed?_eq] at h
  unfold turnIn
  cases hturn : stance.turn session.stopped worker.due now with
  | work =>
      rw [hturn] at h
      obtain rfl := Option.some.inj h
      obtain ⟨reports, htrace, -⟩ :=
        worker.trace_tick now period (session.on worker.ingestor.channel)
      show ((session.on worker.ingestor.channel).run (worker.tick now period)).2.stopped = true
      refine Session.stopped_of_seen _ ?_
      rw [htrace]
      exact List.mem_append_left _ hsees
  | stop =>
      rw [hturn] at h
      obtain rfl := Option.some.inj h
      rcases hdeed with ⟨hcall, -⟩ | ⟨-, hstopped⟩
      · cases hcall
      · exact hstopped
  | wait =>
      rw [hturn] at h
      cases h

theorem Sound.turnIn (h : worker.Sound) {next : Worker}
    (hnext : (worker.turnIn now period stance session).1 = some next) :
    next.ingestor.channel = worker.ingestor.channel ∧ next.Sound := by
  rw [turnIn_fst] at hnext
  cases hdeed : worker.deed? now stance session with
  | none =>
      rw [hdeed] at hnext
      obtain rfl := Option.some.inj hnext
      exact ⟨rfl, h⟩
  | some deed =>
      rw [hdeed] at hnext
      obtain ⟨call, rfl, hnext⟩ := Deed.next_eq_some hnext
      obtain ⟨rfl, -, -⟩ := eq_callIn_of_deed? hdeed
      have hproper := h.proper_callIn now session
      obtain ⟨-, hingestor, hflag, -⟩ := WorkerCall.next_eq_some hnext
      obtain ⟨cursor, hafter⟩ := hproper.after
      refine ⟨by rw [hingestor, hafter]; rfl, fun hreconciled => ?_⟩
      rw [hingestor]
      exact hproper.cursor (hflag ▸ hreconciled)

theorem onChannel_deed? (channel : String) :
    Deed.onChannel channel (worker.deed? now stance session).toList
      = if worker.ingestor.channel = channel then (worker.deed? now stance session).toList
        else [] := by
  cases hdeed : worker.deed? now stance session with
  | none => simp [Deed.onChannel]
  | some deed =>
      have hchannel : deed.channel = worker.ingestor.channel := by
        rw [Deed.channel, worker_of_deed? hdeed]
      simp [Deed.onChannel, List.filter_cons, hchannel]

end Worker

namespace Daemon

def find? (channel : String) (workers : List Worker) : Option Worker :=
  workers.find? fun worker => worker.ingestor.channel = channel

/-- What the workers do in a round. -/
def deedsOf (now period : Nat) (stances : String → Stance) : List Worker → Session → List Deed
  | [], _ => []
  | worker :: rest, session =>
    let stance := stances worker.ingestor.channel
    (worker.deed? now stance session).toList
      ++ deedsOf now period stances rest (worker.turnIn now period stance session).2

/-- The session in which the worker of a channel has its turn. -/
def sessionAt (channel : String) (now period : Nat) (stances : String → Stance) :
    List Worker → Session → Session
  | [], session => session
  | worker :: rest, session =>
    if worker.ingestor.channel = channel then session
    else sessionAt channel now period stances rest
      (worker.turnIn now period (stances worker.ingestor.channel) session).2

/-- What the worker of a channel does at a moment, if there is one. -/
def deedAt (now : Nat) (stance : Stance) (worker? : Option Worker) (session : Session) :
    List Deed :=
  (worker?.bind fun worker => worker.deed? now stance session).toList

/-- Workers of different channels, each ready for its next call. -/
structure Staff (workers : List Worker) : Prop where
  nodup : (workers.map (·.ingestor.channel)).Nodup
  sound : ∀ worker ∈ workers, worker.Sound

variable {now period : Nat} {stance : Stance} {stances : String → Stance} {worker : Worker}
  {workers rest : List Worker} {session : Session} {channel : String}

/-! ### Hiring -/

/-- **One worker for each channel**, however often it is named. -/
theorem find?_hired (agent : Agent) (now : Nat) (channels : List String) (channel : String) :
    find? channel ((Engine.start agent channels).channels.map (Worker.start agent now))
      = if channel ∈ channels then some (Worker.start agent now channel) else none := by
  have hfind : ∀ names : List String,
      find? channel (names.map (Worker.start agent now))
        = if channel ∈ names then some (Worker.start agent now channel) else none := by
    intro names
    induction names with
    | nil => rfl
    | cons name names ih =>
        by_cases h : name = channel
        · subst h
          simp [find?, Worker.start, Ingestor.start]
        · have hne : channel ≠ name := fun heq => h heq.symm
          have htail : find? channel ((name :: names).map (Worker.start agent now))
              = find? channel (names.map (Worker.start agent now)) :=
            List.find?_cons_of_neg (fun heq => h (of_decide_eq_true heq))
          rw [htail, ih]
          simp [hne]
  rw [hfind]
  simp only [Engine.mem_channels_start]

theorem staff_hired (agent : Agent) (now : Nat) (channels : List String) :
    Staff ((Engine.start agent channels).channels.map (Worker.start agent now)) := by
  constructor
  · rw [List.map_map]
    exact (List.map_id'' (fun _ => rfl) _).symm ▸ Engine.nodup_channels_start agent channels
  · intro worker hworker
    obtain ⟨channel, -, rfl⟩ := List.mem_map.mp hworker
    exact Worker.sound_start agent now channel

/-! ### One round -/

theorem find?_cons_self (h : worker.ingestor.channel = channel) :
    find? channel (worker :: rest) = some worker :=
  List.find?_cons_of_pos (decide_eq_true h)

theorem find?_cons_of_ne (h : worker.ingestor.channel ≠ channel) :
    find? channel (worker :: rest) = find? channel rest :=
  List.find?_cons_of_neg (fun heq => h (of_decide_eq_true heq))

theorem find?_eq_none : find? channel workers = none ↔
    channel ∉ workers.map (·.ingestor.channel) := by
  simp [find?]

/-- The worker of a channel after another worker's turn, or after its own. -/
theorem find?_turnIn_append (hsound : worker.Sound) (others : List Worker) :
    find? channel ((worker.turnIn now period stance session).1.toList ++ others)
      = if worker.ingestor.channel = channel
        then (worker.turnIn now period stance session).1.or (find? channel others)
        else find? channel others := by
  cases hnext : (worker.turnIn now period stance session).1 with
  | none => simp
  | some next =>
      obtain ⟨hsame, -⟩ := hsound.turnIn hnext
      split
      · exact find?_cons_self (hsame.trans ‹_›)
      · exact find?_cons_of_ne (hsame ▸ ‹_›)

theorem Staff.tail (h : Staff (worker :: rest)) : Staff rest :=
  ⟨(List.nodup_cons.mp h.nodup).2, fun w hw => h.sound w (List.mem_cons_of_mem _ hw)⟩

/-- **One round on one channel.** -/
theorem Staff.round (h : Staff workers) (now period : Nat) (stances : String → Stance)
    (session : Session) (channel : String) :
    Deed.onChannel channel (deedsOf now period stances workers session)
        = deedAt now (stances channel) (find? channel workers)
          (sessionAt channel now period stances workers session) ∧
      find? channel (runWorkers now period stances workers session).1
        = Worker.resume period (find? channel workers)
          (deedAt now (stances channel) (find? channel workers)
            (sessionAt channel now period stances workers session)) := by
  induction workers generalizing session with
  | nil => exact ⟨rfl, rfl⟩
  | cons worker rest ih =>
      obtain ⟨hdeeds, hafter⟩ := ih h.tail
        (worker.turnIn now period (stances worker.ingestor.channel) session).2
      rw [deedsOf, Deed.onChannel_append, Worker.onChannel_deed?, hdeeds, runWorkers,
        find?_turnIn_append (h.sound worker List.mem_cons_self), hafter, sessionAt]
      by_cases hchannel : worker.ingestor.channel = channel
      · subst hchannel
        have hnone : find? worker.ingestor.channel rest = none :=
          find?_eq_none.mpr (List.nodup_cons.mp h.nodup).1
        rw [if_pos rfl, if_pos rfl, if_pos rfl, hnone, find?_cons_self rfl, Worker.turnIn_fst]
        exact ⟨List.append_nil _, Option.or_none⟩
      · rw [if_neg hchannel, if_neg hchannel, if_neg hchannel, find?_cons_of_ne hchannel]
        exact ⟨rfl, rfl⟩

/-- A round keeps the channels in order and drops those whose worker has ended. -/
theorem Staff.channels_runWorkers (h : Staff workers) (session : Session) :
    ((runWorkers now period stances workers session).1.map (·.ingestor.channel)).Sublist
      (workers.map (·.ingestor.channel)) := by
  induction workers generalizing session with
  | nil => exact List.Sublist.refl _
  | cons worker rest ih =>
      have hrest := ih h.tail
        (worker.turnIn now period (stances worker.ingestor.channel) session).2
      rw [runWorkers, List.map_append, List.map_cons]
      cases hnext : (worker.turnIn now period (stances worker.ingestor.channel) session).1 with
      | none => exact hrest.cons _
      | some next =>
          obtain ⟨hsame, -⟩ := (h.sound worker List.mem_cons_self).turnIn hnext
          have hcons := hrest.cons_cons next.ingestor.channel
          rw [hsame] at hcons
          simpa [hsame] using hcons

theorem Staff.runWorkers (h : Staff workers) (session : Session) :
    Staff (runWorkers now period stances workers session).1 := by
  refine ⟨h.nodup.sublist (h.channels_runWorkers session), ?_⟩
  induction workers generalizing session with
  | nil => exact fun _ hworker => absurd hworker List.not_mem_nil
  | cons worker rest ih =>
      intro w hw
      rcases List.mem_append.mp hw with hw | hw
      · exact ((h.sound worker List.mem_cons_self).turnIn (Option.mem_toList.mp hw)).2
      · exact ih h.tail _ w hw

/-- The session after a round has recorded the questions of its deeds. -/
theorem calls_runWorkers (workers : List Worker) (session : Session) :
    (runWorkers now period stances workers session).2.calls = session.calls
      ++ (deedsOf now period stances workers session).flatMap
        (·.asked.filterMap ledgerQuestion?) := by
  induction workers generalizing session with
  | nil => exact (List.append_nil _).symm
  | cons worker rest ih =>
      rw [runWorkers, ih, Worker.calls_turnIn, deedsOf, List.flatMap_append, List.append_assoc]

theorem stopped_runWorkers (workers : List Worker) (h : session.stopped = true) :
    (runWorkers now period stances workers session).2.stopped = true := by
  induction workers generalizing session with
  | nil => exact h
  | cons worker rest ih => exact ih (Worker.stopped_turnIn h)

theorem stopped_of_seesStop {deed : Deed} (h : deed ∈ deedsOf now period stances workers session)
    (hsees : deed.SeesStop) : (runWorkers now period stances workers session).2.stopped = true := by
  induction workers generalizing session with
  | nil => exact absurd h List.not_mem_nil
  | cons worker rest ih =>
      rcases List.mem_append.mp h with h | h
      · exact stopped_runWorkers rest (Worker.stopped_of_seesStop (Option.mem_toList.mp h) hsees)
      · exact ih h

/-- **A call after a request to stop** is one whose tick has come and for which the worker let the
request wait, and it writes nothing. -/
theorem call_of_stopped (h : session.stopped = true) {call : WorkerCall}
    (hcall : .call call ∈ deedsOf now period stances workers session) :
    stances call.channel = .works ∧ call.before.due ≤ now ∧ WorkerCall.Reads call.asked := by
  induction workers generalizing session with
  | nil => exact absurd hcall List.not_mem_nil
  | cons worker rest ih =>
      rcases List.mem_append.mp hcall with hcall | hcall
      · have hdeed := Option.mem_toList.mp hcall
        obtain ⟨rfl, hdue, hstance⟩ := Worker.eq_callIn_of_deed? hdeed
        exact ⟨hstance h, hdue, worker.reads_callIn now h⟩
      · exact ih (Worker.stopped_turnIn h) hcall

theorem runWorkers_heeding (h : session.stopped = true) (workers : List Worker) :
    (runWorkers now period (fun _ => .heeds) workers session).1 = [] := by
  induction workers with
  | nil => rfl
  | cons worker rest ih =>
      have hturn : worker.turnIn now period .heeds session = (none, session) := by
        unfold Worker.turnIn Stance.turn
        simp only [h, if_true]
      rw [runWorkers, hturn]
      exact ih

end Daemon

theorem Worker.History.deedAt {period : Nat} {worker? : Option Worker} {deeds : List Deed}
    (h : History period worker? deeds) (now : Nat) (stance : Stance) (session : Session) :
    History period worker?
      (deeds ++ Daemon.deedAt now stance (resume period worker? deeds) session) := by
  cases hworker : resume period worker? deeds with
  | none => exact (List.append_nil deeds).symm ▸ h
  | some worker => exact h.concat hworker now stance session

/-- **A round carries on the history of each channel**, and leaves the worker that the history
leaves. -/
theorem Daemon.Staff.history_round {workers : List Worker} (h : Staff workers) (now : Nat)
    {period : Nat} (stances : String → Stance) (session : Session) {channel : String}
    {worker? : Option Worker} {deeds : List Deed}
    (hhistory : Worker.History period worker? (Deed.onChannel channel deeds))
    (hfind : find? channel workers
      = Worker.resume period worker? (Deed.onChannel channel deeds)) :
    Worker.History period worker?
        (Deed.onChannel channel (deeds ++ deedsOf now period stances workers session)) ∧
      find? channel (Daemon.runWorkers now period stances workers session).1
        = Worker.resume period worker?
          (Deed.onChannel channel (deeds ++ deedsOf now period stances workers session)) := by
  obtain ⟨hnew, hafter⟩ := h.round now period stances session channel
  rw [Deed.onChannel_append, hnew, hafter, hfind, Worker.resume_append]
  exact ⟨hhistory.deedAt now (stances channel) _, rfl⟩

end LedgerIndex
