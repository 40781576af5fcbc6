import Mathlib.Data.List.Permutation
import LedgerIndex.Proofs.Ingest.Company
import LedgerIndex.Proofs.Ingest.Deployment

/-! # The protocol of the daemon

Whatever happens, and however ledger and store behave, the workers of a daemon keep to
`Worker.Orderly`, each of them has one turn at every moment, no worker is disturbed by another one,
and the daemon finishes when all of them have ended (`Daemon.supervises`).  A request to stop stays
from the moment on at which somebody sees it (`Course.Seen`).  The clock of a daemon runs through
such moments (`Daemon.advanceTo_eq_run`). -/

namespace LedgerIndex

open Ingest Daemon

namespace Course

variable {course : Course}

/-- A course that a daemon can take. -/
def Possible (course : Course) : Prop :=
  ∃ agent configured period site notices daemon happenings,
    start? agent configured period site notices = some daemon ∧
      course = run { daemon := daemon } happenings

theorem Possible.kept (h : Possible course) : Kept course := by
  obtain ⟨_, _, _, _, _, daemon, happenings, hstart, rfl⟩ := h
  exact (kept_start hstart).run happenings

/-- The daemon has every request to stop that a worker took or that a call saw. -/
def Seen (course : Course) : Prop :=
  ∀ deed ∈ course.deeds, deed.SeesStop → course.daemon.shutdownRequested = true

/-- What a course keeps to of a daemon for the configured channels, or for all channels of the
ledger where none are configured. -/
structure Supervised (agent : Agent) (configured : List String) (period : Nat)
    (course : Course) : Prop where
  /-- The deeds on a channel keep to the protocol of a worker, from one moment on for all channels,
  and the worker that the channel has is the one that they leave. -/
  orderly : ∃ began, ∀ channel,
    Worker.Orderly agent channel period began (course.deedsOn channel) ∧
      ∀ worker, course.daemon.worker? channel = some worker →
        Worker.resume period (some (Worker.start agent began channel)) (course.deedsOn channel)
          = some worker
  /-- Only monitored channels have deeds. -/
  monitored : ∀ deed ∈ course.deeds, ∃ channels,
    Daemon.monitored? configured course.listings = some channels ∧ deed.channel ∈ channels
  /-- While the daemon works, each monitored channel without a deed that ended its worker has one
  worker, and no other channel has one. -/
  staff : ∀ workers, course.daemon.phase = .working workers →
    (workers.map (·.ingestor.channel)).Nodup ∧
      ∃ channels, Daemon.monitored? configured course.listings = some channels ∧ ∀ channel,
        channel ∈ workers.map (·.ingestor.channel) ↔
          channel ∈ channels ∧ ∀ deed ∈ course.deedsOn channel, deed.ends = false
  /-- At a moment the worker of a channel has one turn: it makes a call if its tick has come, or
  takes a request to stop if there is one, and where both are there it does either. -/
  tick : ∀ now stances session channel,
    (course.moment now stances session).deedsOn channel = course.deedsOn channel
      ++ deedAt now (stances.worker channel)
        ((course.readyAt now stances session).worker? channel)
        ((course.readyAt now stances session).sessionFor stances.worker channel)
  /-- A request to stop is there from the moment on at which a worker takes it or a call sees it. -/
  seen : Seen course
  /-- A request to stop stays.  The daemon finishes at the next moment at which everyone takes it.
  Until then a call is made only on a tick that has come, by a worker that lets the request wait,
  and it writes nothing. -/
  stopped : course.daemon.shutdownRequested = true →
    (∀ happenings, (course.run happenings).daemon.shutdownRequested = true) ∧
    (∀ now session, (course.moment now .heeding session).daemon.isFinished = true) ∧
    ∀ now stances session call,
      .call call ∈ (course.daemon.arrive now session).deedsNow stances →
        stances.worker call.channel = .works ∧ call.before.due ≤ now ∧
          WorkerCall.Reads call.asked
  /-- The ledger is asked for the channels and by the calls, and nothing else. -/
  requests : ∀ now stances session,
    (course.moment now stances session).daemon.session.calls = session.calls
      ++ ((course.daemon.arrive now session).listingsNow stances.daemon).map (fun _ => .channels)
      ++ ((course.daemon.arrive now session).deedsNow stances).flatMap
        (·.asked.filterMap ledgerQuestion?)
  /-- The daemon has finished when it took a request to stop before it had workers, when the
  channels cannot be had, and when the worker of every monitored channel has ended; else it has
  not. -/
  finished : (course.daemon.isFinished = true ↔
      course.halted = true ∨ Ended configured course.listings course.deeds) ∧
    (course.halted = true → course.deeds = [])
  /-- In any other course with the same worker for a channel and the same schedule for it, the deeds
  on it are the same up to the first answer in which the courses differ. -/
  apart : ∀ other : Course, other.Possible → ∀ channel, SameWorker channel course other →
    ∀ happenings happenings',
      course.schedule channel happenings = other.schedule channel happenings' →
      ∃ new new', (course.run happenings).deedsOn channel = course.deedsOn channel ++ new ∧
        (other.run happenings').deedsOn channel = other.deedsOn channel ++ new' ∧
        Deed.Agree new new'

theorem Tells.orderly (h : Tells course) : ∃ began, ∀ channel,
    Worker.Orderly course.daemon.agent channel course.daemon.period began
        (course.deedsOn channel) ∧
      ∀ worker, course.daemon.worker? channel = some worker →
        Worker.resume course.daemon.period
          (some (Worker.start course.daemon.agent began channel)) (course.deedsOn channel)
          = some worker := by
  obtain ⟨began, hhistory⟩ := h.history
  refine ⟨began, fun channel => ?_⟩
  obtain ⟨hhistory, hfind⟩ := hhistory channel
  have hresume : ∀ worker, course.daemon.worker? channel = some worker →
      Worker.resume course.daemon.period
        (hired? course.daemon.agent course.monitored? began channel) (course.deedsOn channel)
        = some worker := by
    intro worker hworker
    unfold worker? at hworker
    split at hworker
    · rw [← hfind _ ‹_›, hworker]
    · cases hworker
  unfold hired? at hhistory hresume
  split at hhistory
  · rw [if_pos ‹_›] at hresume
    exact ⟨hhistory.orderly, hresume⟩
  · rw [if_neg ‹_›, hhistory.eq_nil] at hresume
    rw [hhistory.eq_nil]
    have hnone : Worker.History course.daemon.period
        (some (Worker.start course.daemon.agent began channel)) [] := trivial
    exact ⟨hnone.orderly, fun worker hworker => nomatch hresume worker hworker⟩

theorem Tells.monitored (h : Tells course) {deed : Deed} (hdeed : deed ∈ course.deeds) :
    ∃ channels, course.monitored? = some channels ∧ deed.channel ∈ channels := by
  obtain ⟨began, hhistory⟩ := h.history
  obtain ⟨hhistory, -⟩ := hhistory deed.channel
  have hmem : deed ∈ course.deedsOn deed.channel := Deed.mem_onChannel.mpr ⟨hdeed, rfl⟩
  unfold hired? at hhistory
  split at hhistory
  · rename_i hchannel
    cases hmonitored : course.monitored? with
    | none =>
        rw [hmonitored] at hchannel
        exact absurd hchannel List.not_mem_nil
    | some channels =>
        rw [hmonitored] at hchannel
        exact ⟨channels, rfl, hchannel⟩
  · rw [hhistory.eq_nil] at hmem
    exact absurd hmem List.not_mem_nil

/-! ### Requests -/

theorem requests_listIfDue (daemon : Daemon) :
    daemon.listIfDue.session.calls
      = daemon.session.calls ++ daemon.answersDue.map (fun _ => .channels) := by
  rcases daemon.listIfDue_cases with ⟨attempt, due, -, hdaemon, hanswers⟩ | ⟨hdaemon, hanswers⟩
  · obtain ⟨phase, hlist⟩ := daemon.list_frame attempt
    rw [hdaemon, hanswers, hlist]
    exact Session.calls_run (Program.query (.ledger .channels)) daemon.session
  · rw [hdaemon, hanswers]
    exact (List.append_nil _).symm

theorem requests_ready (daemon : Daemon) (stance : Stance) :
    (daemon.ready stance).session.calls
      = daemon.session.calls ++ (daemon.listingsNow stance).map (fun _ => .channels) := by
  unfold Daemon.ready listingsNow
  cases daemon.turn stance with
  | work =>
      dsimp only
      rw [requests_listIfDue, daemon.session_beginWork]
  | wait => exact (List.append_nil _).symm
  | stop => exact (List.append_nil _).symm

theorem requests_work (daemon : Daemon) (stances : String → Stance) :
    (daemon.work stances).session.calls = daemon.session.calls
      ++ (daemon.deedsDue stances).flatMap (·.asked.filterMap ledgerQuestion?) := by
  rcases daemon.work_cases stances with ⟨workers, -, hdaemon, hdeeds⟩ | ⟨-, hdaemon, hdeeds⟩
  · rw [hdaemon, hdeeds]
    exact calls_runWorkers workers daemon.session
  · rw [hdaemon, hdeeds]
    exact (List.append_nil _).symm

theorem requests_moment (course : Course) (now : Nat) (stances : Stances) (session : Session) :
    (course.moment now stances session).daemon.session.calls = session.calls
      ++ ((course.daemon.arrive now session).listingsNow stances.daemon).map (fun _ => .channels)
      ++ ((course.daemon.arrive now session).deedsNow stances).flatMap
        (·.asked.filterMap ledgerQuestion?) :=
  (requests_work _ stances.worker).trans (congrArg (· ++ _) (requests_ready _ stances.daemon))

/-! ### Requests to stop -/

theorem stopped_ready {daemon : Daemon} (h : daemon.shutdownRequested = true) (stance : Stance) :
    (daemon.ready stance).shutdownRequested = true := by
  unfold Daemon.ready
  split
  · have hbegin : daemon.beginWork.shutdownRequested = true :=
      (congrArg Session.stopped daemon.session_beginWork).trans h
    rcases daemon.beginWork.listIfDue_cases with ⟨attempt, due, -, hdaemon, -⟩ | ⟨hdaemon, -⟩
    · obtain ⟨phase, hlist⟩ := daemon.beginWork.list_frame attempt
      rw [hdaemon, hlist]
      exact Session.stopped_run _ hbegin
    · rwa [hdaemon]
  · exact h
  · exact h

theorem stopped_work {daemon : Daemon} (h : daemon.shutdownRequested = true)
    (stances : String → Stance) : (daemon.work stances).shutdownRequested = true := by
  rcases daemon.work_cases stances with ⟨workers, -, hdaemon, -⟩ | ⟨-, hdaemon, -⟩
  · rw [hdaemon]
    exact stopped_runWorkers workers h
  · rwa [hdaemon]

theorem stopped_arrive (h : course.daemon.shutdownRequested = true) (now : Nat)
    (session : Session) : (course.daemon.arrive now session).shutdownRequested = true :=
  Bool.or_eq_true_iff.mpr (.inl h)

theorem stopped_step (h : course.daemon.shutdownRequested = true) (happening : Happening) :
    (course.step happening).daemon.shutdownRequested = true := by
  cases happening with
  | shutdown => rfl
  | moment now stances session =>
      exact stopped_work (stopped_ready (stopped_arrive h now session) stances.daemon) _

theorem stopped_run (h : course.daemon.shutdownRequested = true) (happenings : List Happening) :
    (course.run happenings).daemon.shutdownRequested = true := by
  induction happenings generalizing course with
  | nil => exact h
  | cons happening happenings ih => exact ih (stopped_step h happening)

theorem stopped_of_seesStop {daemon : Daemon} {stances : String → Stance} {deed : Deed}
    (h : deed ∈ daemon.deedsDue stances) (hsees : deed.SeesStop) :
    (daemon.work stances).shutdownRequested = true := by
  rcases daemon.work_cases stances with ⟨workers, -, hdaemon, hdeeds⟩ | ⟨-, -, hdeeds⟩
  · rw [hdeeds] at h
    rw [hdaemon]
    exact Daemon.stopped_of_seesStop h hsees
  · rw [hdeeds] at h
    exact absurd h List.not_mem_nil

theorem Seen.step (h : Seen course) (happening : Happening) : Seen (course.step happening) := by
  cases happening with
  | shutdown => exact fun _ _ _ => rfl
  | moment now stances session =>
      intro deed hdeed hsees
      rcases List.mem_append.mp hdeed with hdeed | hdeed
      · exact stopped_step (h deed hdeed hsees) (.moment now stances session)
      · exact stopped_of_seesStop hdeed hsees

theorem Seen.run (h : Seen course) (happenings : List Happening) :
    Seen (course.run happenings) := by
  induction happenings generalizing course with
  | nil => exact h
  | cons happening happenings ih => exact ih (h.step happening)

theorem finished_heeding (h : course.daemon.shutdownRequested = true) (now : Nat)
    (session : Session) : (course.moment now .heeding session).daemon.isFinished = true := by
  have hstopped := stopped_arrive h now session
  rw [isFinished_iff]
  show ((course.daemon.arrive now session).settleBy .heeding).phase = .finished
  generalize course.daemon.arrive now session = daemon at hstopped
  have hturn : Stance.heeds.turn daemon.shutdownRequested = fun _ _ => .stop := by
    rw [hstopped]
    rfl
  unfold settleBy Daemon.ready Daemon.turn Stances.heeding
  cases hphase : daemon.phase with
  | starting => simp only [hturn, Daemon.work]
  | listing attempt due => simp only [hturn, Daemon.work]
  | working workers =>
      have hmanned : Manned daemon := .inl ⟨workers, hphase⟩
      simp only [hmanned.listIfDue_beginWork, Daemon.work, hphase, runWorkers_heeding hstopped,
        if_true]
  | finished =>
      have hmanned : Manned daemon := .inr hphase
      simp only [hmanned.listIfDue_beginWork, Daemon.work, hphase]

theorem call_of_stopped (h : course.daemon.shutdownRequested = true) {now : Nat}
    {stances : Stances} {session : Session} {call : WorkerCall}
    (hcall : .call call ∈ (course.daemon.arrive now session).deedsNow stances) :
    stances.worker call.channel = .works ∧ call.before.due ≤ now ∧
      WorkerCall.Reads call.asked := by
  have hready := stopped_ready (stopped_arrive h now session) stances.daemon
  have hframe := frame_ready (course.daemon.arrive now session) stances.daemon
  have hnow : ((course.daemon.arrive now session).ready stances.daemon).now = now :=
    congrArg (·.2) hframe
  rcases ((course.daemon.arrive now session).ready stances.daemon).work_cases stances.worker with
    ⟨workers, -, -, hdeeds⟩ | ⟨-, -, hdeeds⟩
  · rw [deedsNow, hdeeds, hnow] at hcall
    exact Daemon.call_of_stopped hready hcall
  · rw [deedsNow, hdeeds] at hcall
    exact absurd hcall List.not_mem_nil

end Course

/-- **The daemon supervises its channels**, whatever happens. -/
theorem Daemon.supervises {agent : Agent} {configured : List String} {period : Span} {site : Site}
    {notices : Option Notices} {daemon : Daemon}
    (h : start? agent configured period site notices = some daemon)
    (happenings : List Happening) :
    (Course.run { daemon := daemon } happenings).Supervised agent configured period.millis := by
  have hkept := (Course.kept_start h).run happenings
  have hseen : Course.Seen { daemon := daemon } := fun _ hdeed => absurd hdeed List.not_mem_nil
  have hseen := hseen.run happenings
  have hterms := Course.terms_run { daemon := daemon } happenings
  have hstart : daemon.terms = (agent, configured, period.millis) := by
    unfold start? at h
    split at h
    · cases h
    · rw [← Option.some.inj h]
      rfl
  have hterms := hterms.trans hstart
  have hagent : (Course.run { daemon := daemon } happenings).daemon.agent = agent :=
    congrArg (·.1) hterms
  have hconfigured : (Course.run { daemon := daemon } happenings).daemon.configured = configured :=
    congrArg (·.2.1) hterms
  have hperiod : (Course.run { daemon := daemon } happenings).daemon.period = period.millis :=
    congrArg (·.2.2) hterms
  generalize Course.run { daemon := daemon } happenings = course
    at hkept hseen hagent hconfigured hperiod
  subst hagent hconfigured
  rw [← hperiod]
  exact
    { orderly := hkept.tells.orderly
      monitored := fun deed hdeed => hkept.tells.monitored hdeed
      staff := fun workers hworking => by
        obtain ⟨hstaff, channels, hmonitored⟩ := hkept.tells.staff hworking
        exact ⟨hstaff.nodup, channels, hmonitored,
          fun channel => hkept.tells.mem_staff hworking hmonitored⟩
      tick := fun now stances session channel =>
        (hkept.deedsOn_moment now stances session channel).1
      seen := hseen
      stopped := fun hstopped => ⟨Course.stopped_run hstopped, Course.finished_heeding hstopped,
        fun now stances session call hcall => Course.call_of_stopped hstopped hcall⟩
      requests := course.requests_moment
      finished := ⟨hkept.finished_iff, hkept.deeds_of_halted⟩
      apart := fun other hother channel hsame happenings happenings' hschedule =>
        hsame.agree hkept hother.kept hschedule }

namespace Course.Sample

/-- A session with two channels that have no blocks. -/
def sessionOver (store : MemoryStore) : Session :=
  { site := ⟨.memory { channels := [("a", []), ("b", [])] }, .memory store, .unreachable⟩
    channel := "" }

/-- A daemon for both channels, one of them configured twice. -/
def daemon : Daemon :=
  { agent := Deployment.Sample.agent
    configured := ["b", "a", "b"]
    period := 1000
    phase := .starting
    now := 0
    session := sessionOver {} }

/-- A store that has lost a block behind its checkpoint. -/
def torn : MemoryStore :=
  { checkpoints := [("a", 0)] }

def ticks (store : MemoryStore) : List Happening :=
  [.moment 0 .heeding (sessionOver store), .moment 1000 .heeding (sessionOver store)]

/-- A request to stop after the first tick.  Later, when the next tick is overdue, the worker of one
channel lets the request wait. -/
def stop : List Happening :=
  [.moment 0 .heeding (sessionOver {}), .shutdown,
    .moment 1800 ⟨.heeds, fun channel => if channel = "a" then .works else .heeds⟩
      (sessionOver {})]

end Course.Sample

open Course.Sample in
/-- One channel ends, and the deeds on the other one are those of a course in which it goes on.
After a request to stop one worker makes another call on a late tick, and the other one ends. -/
theorem Daemon.supervises_torn :
    start? Deployment.Sample.agent ["b", "a", "b"] (Span.ofSeconds 1) (sessionOver {}).site none
        = some daemon ∧
      (Course.run { daemon := daemon } (ticks torn)).Supervised Deployment.Sample.agent
        ["b", "a", "b"] 1000 ∧
      ((Course.run { daemon := daemon } (ticks torn)).deedsOn "a").map (·.ends) = [true] ∧
      ((Course.run { daemon := daemon } (ticks {})).deedsOn "a").map (·.ends) = [false, false] ∧
      ((Course.run { daemon := daemon } (ticks torn)).deedsOn "b").map (·.succeeded)
        = [true, true] ∧
      Deed.Agree ((Course.run { daemon := daemon } (ticks torn)).deedsOn "b")
        ((Course.run { daemon := daemon } (ticks {})).deedsOn "b") ∧
      (Course.run { daemon := daemon } stop).Supervised Deployment.Sample.agent
        ["b", "a", "b"] 1000 ∧
      ((Course.run { daemon := daemon } stop).deedsOn "a").map (·.ends) = [false, false] ∧
      ((Course.run { daemon := daemon } stop).daemon.worker? "a").map (·.due) = some 2800 ∧
      ((Course.run { daemon := daemon } stop).deedsOn "b").map (·.ends) = [false, true] := by
  have hstart : start? Deployment.Sample.agent ["b", "a", "b"] (Span.ofSeconds 1)
      (sessionOver {}).site none = some daemon := rfl
  have hsame : Course.SameWorker "b" { daemon := daemon } { daemon := daemon } :=
    ⟨fun _ => rfl, ⟨List.cons_ne_nil _ _, List.cons_ne_nil _ _⟩, rfl⟩
  have hschedule : Course.schedule { daemon := daemon } "b" (ticks torn)
      = Course.schedule { daemon := daemon } "b" (ticks {}) := by
    have htorn : Course.schedule { daemon := daemon } "b" (ticks torn)
        = [some ⟨0, .work, .heeds, false⟩, some ⟨1000, .work, .heeds, false⟩] := by cbv
    have hwhole : Course.schedule { daemon := daemon } "b" (ticks {})
        = [some ⟨0, .work, .heeds, false⟩, some ⟨1000, .work, .heeds, false⟩] := by cbv
    rw [htorn, hwhole]
  obtain ⟨deeds, deeds', hdeeds, hdeeds', hagree⟩ := (supervises hstart []).apart
    { daemon := daemon } ⟨_, _, _, _, _, daemon, [], hstart, rfl⟩ "b" hsame (ticks torn) (ticks {})
    hschedule
  refine ⟨hstart, supervises hstart (ticks torn), by cbv, by cbv, by cbv, ?_,
    supervises hstart stop, by cbv, by cbv, by cbv⟩
  rw [show (Course.run { daemon := daemon } (ticks torn)).deedsOn "b" = deeds from hdeeds,
    show (Course.run { daemon := daemon } (ticks {})).deedsOn "b" = deeds' from hdeeds']
  exact hagree

/-! ### The clock -/

namespace Course

theorem daemon_run_congr {x y : Course} (h : x.daemon = y.daemon) (happenings : List Happening) :
    (x.run happenings).daemon = (y.run happenings).daemon := by
  induction happenings generalizing x y with
  | nil => exact h
  | cons happening happenings ih =>
      refine ih (x := x.step happening) (y := y.step happening) ?_
      cases happening with
      | moment now stances session =>
          show (x.moment now stances session).daemon = (y.moment now stances session).daemon
          unfold Course.moment
          rw [h]
      | shutdown =>
          show x.daemon.shutdown = y.daemon.shutdown
          rw [h]

end Course

namespace Daemon

variable {daemon : Daemon}

theorem settle_eq_moment (daemon : Daemon) (now : Nat) :
    (Course.moment { daemon := daemon } now .heeding daemon.session).daemon
      = { daemon with now := now }.settle := by
  have harrive : daemon.arrive now daemon.session = { daemon with now := now } := by
    unfold arrive
    rw [Bool.or_self]
  show (daemon.arrive now daemon.session).settle = _
  rw [harrive]

/-- **The clock runs through moments**, each with the session that the one before it left. -/
theorem advanceTo_eq_run (daemon : Daemon) (target fuel : Nat) :
    ∃ happenings : List Happening, (∀ happening ∈ happenings, happening ≠ .shutdown) ∧
      daemon.advanceTo target fuel
        = { (Course.run { daemon := daemon } happenings).daemon with now := target } := by
  induction fuel generalizing daemon with
  | zero => exact ⟨[], fun _ hnil => absurd hnil List.not_mem_nil, rfl⟩
  | succ fuel ih =>
      unfold advanceTo
      split
      · rename_i due _
        split
        · obtain ⟨happenings, hmoments, hrun⟩ := ih { daemon with now := max daemon.now due }.settle
          refine ⟨.moment (max daemon.now due) .heeding daemon.session :: happenings,
            List.forall_mem_cons.mpr ⟨Happening.noConfusion, hmoments⟩, ?_⟩
          have hrecord : (Course.run { daemon := { daemon with now := max daemon.now due }.settle }
              happenings).daemon = (Course.run { daemon := daemon }
                (.moment (max daemon.now due) .heeding daemon.session :: happenings)).daemon :=
            Course.daemon_run_congr (y := Course.moment { daemon := daemon } (max daemon.now due)
              .heeding daemon.session) (settle_eq_moment daemon _).symm happenings
          rw [hrun, hrecord]
        · exact ⟨[], fun _ hnil => absurd hnil List.not_mem_nil, rfl⟩
      · exact ⟨[], fun _ hnil => absurd hnil List.not_mem_nil, rfl⟩

end Daemon

end LedgerIndex
