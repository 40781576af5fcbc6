import LedgerIndex.Proofs.Ingest.Rounds

/-! # The supervision of channels

A `Course` is a daemon with a record of what it has done: the answers to its questions for the
channels, and every deed of its workers.  It is carried on by what happens: a moment of the clock,
at which ledger, store and network may be in any state and fail in any way, and the daemon and each
of its workers may come with any stance, or a request to stop.

`Course.Tells` says what the phase of a daemon tells about its record.  Every stage of a moment
keeps it (`Tells.beginWork`, `Tells.listIfDue`, `Tells.work`), hence whatever happens
(`Course.Kept.step`).  The protocol of the daemon is read off it. -/

namespace LedgerIndex

open Ingest

namespace Daemon

/-- What happens to a daemon.  The session of a moment has the ledger, the store and the network of
that moment, and may bring a request to stop, at once or with a block that is fetched. -/
inductive Happening where
  | moment (now : Nat) (stances : Stances) (session : Session)
  | shutdown

variable (daemon : Daemon)

/-- The daemon at a moment, before its work; a request to stop stays. -/
def arrive (now : Nat) (session : Session) : Daemon :=
  { daemon with
    now := now
    session := { session with stopped := daemon.session.stopped || session.stopped } }

/-- The answer of the ledger, if it is asked for the channels. -/
def answersDue : List (Except LedgerError (List String)) :=
  match daemon.phase with
  | .listing _ due =>
    if due ≤ daemon.now then [(daemon.session.run (Program.query (.ledger .channels))).1] else []
  | _ => []

/-- What the workers do, if there are any. -/
def deedsDue (stances : String → Stance) : List Deed :=
  match daemon.phase with
  | .working workers => deedsOf daemon.now daemon.period stances workers daemon.session
  | _ => []

/-- The session in which the worker of a channel has its turn. -/
def sessionFor (stances : String → Stance) (channel : String) : Session :=
  match daemon.phase with
  | .working workers => sessionAt channel daemon.now daemon.period stances workers daemon.session
  | _ => daemon.session

/-- The answers of the ledger at a moment. -/
def listingsNow (stance : Stance) : List (Except LedgerError (List String)) :=
  match daemon.turn stance with
  | .work => daemon.beginWork.answersDue
  | _ => []

/-- What the workers do at a moment. -/
def deedsNow (stances : Stances) : List Deed :=
  (daemon.ready stances.daemon).deedsDue stances.worker

def worker? (channel : String) : Option Worker :=
  match daemon.phase with
  | .working workers => find? channel workers
  | _ => none

/-- The monitored channels: those that are configured, or those of the first answer. -/
def monitored? (configured : List String) (listings : List (Except LedgerError (List String))) :
    Option (List String) :=
  if configured = [] then listings.findSome? Except.toOption else some configured

/-- Every attempt to get the channels has failed. -/
def Unlisted (listings : List (Except LedgerError (List String))) : Prop :=
  listings.length = listingPolicy.maxAttempts ∧ ∀ answer ∈ listings, ∃ e, answer = .error e

/-- All workers have ended, or there are none because the channels cannot be had. -/
def Ended (configured : List String) (listings : List (Except LedgerError (List String)))
    (deeds : List Deed) : Prop :=
  (configured = [] ∧ Unlisted listings ∧ deeds = []) ∨
    ∃ channels, monitored? configured listings = some channels ∧
      ∀ channel ∈ channels, ∃ deed ∈ Deed.onChannel channel deeds, deed.ends = true

/-- The worker of a channel before its first deed. -/
def hired? (agent : Agent) (channels? : Option (List String)) (began : Nat) (channel : String) :
    Option Worker :=
  if channel ∈ channels?.getD [] then some (Worker.start agent began channel) else none

/-! ### The stages of a moment -/

theorem list_eq (attempt : Nat) :
    daemon.list attempt =
      let (answer, session) := daemon.session.run (Program.query (.ledger .channels))
      match answer with
      | .ok channels => ({ daemon with session := session } : Daemon).follow channels
      | .error _ =>
        if listingPolicy.maxAttempts ≤ attempt then
          { daemon with session := session, phase := .finished }
        else
          let due := daemon.now + (listingPolicy.delay attempt).millis
          { daemon with session := session, phase := .listing (attempt + 1) due } := by
  unfold Daemon.list
  generalize daemon.session.run (Program.query (.ledger .channels)) = ran
  obtain ⟨answer, session⟩ := ran
  cases answer with
  | ok channels => rfl
  | error e =>
      by_cases hlast : listingPolicy.maxAttempts ≤ attempt
      · simp only [RetryPolicy.after, if_pos hlast]
      · simp only [RetryPolicy.after, if_neg hlast]

theorem beginWork_frame : ∃ phase, daemon.beginWork = { daemon with phase := phase } := by
  unfold beginWork
  split
  · split <;> exact ⟨_, rfl⟩
  · exact ⟨daemon.phase, rfl⟩

theorem session_beginWork : daemon.beginWork.session = daemon.session := by
  obtain ⟨phase, hbegin⟩ := daemon.beginWork_frame
  rw [hbegin]

theorem list_frame (attempt : Nat) : ∃ phase, daemon.list attempt =
    { daemon with
      session := (daemon.session.run (Program.query (.ledger .channels))).2
      phase := phase } := by
  rw [list_eq]
  generalize daemon.session.run (Program.query (.ledger .channels)) = ran
  obtain ⟨answer, session⟩ := ran
  cases answer with
  | ok channels => exact ⟨_, rfl⟩
  | error e =>
      dsimp only
      split <;> exact ⟨_, rfl⟩

theorem listIfDue_cases :
    (∃ attempt due, daemon.phase = .listing attempt due ∧ daemon.listIfDue = daemon.list attempt ∧
      daemon.answersDue = [(daemon.session.run (Program.query (.ledger .channels))).1]) ∨
    (daemon.listIfDue = daemon ∧ daemon.answersDue = []) := by
  unfold Daemon.listIfDue answersDue
  cases hphase : daemon.phase with
  | listing attempt due =>
      by_cases hdue : due ≤ daemon.now
      · exact .inl ⟨attempt, due, rfl, if_pos hdue, if_pos hdue⟩
      · exact .inr ⟨if_neg hdue, if_neg hdue⟩
  | _ => exact .inr ⟨rfl, rfl⟩

theorem work_cases (stances : String → Stance) :
    (∃ workers, daemon.phase = .working workers ∧
      daemon.work stances =
        { daemon with
          phase :=
            if (runWorkers daemon.now daemon.period stances workers daemon.session).1 = []
            then .finished
            else .working (runWorkers daemon.now daemon.period stances workers daemon.session).1
          session := (runWorkers daemon.now daemon.period stances workers daemon.session).2 } ∧
      daemon.deedsDue stances
        = deedsOf daemon.now daemon.period stances workers daemon.session) ∨
    ((∀ workers, daemon.phase ≠ .working workers) ∧ daemon.work stances = daemon ∧
      daemon.deedsDue stances = []) := by
  unfold Daemon.work deedsDue
  cases hphase : daemon.phase with
  | working workers => exact .inl ⟨workers, rfl, rfl, rfl⟩
  | _ => exact .inr ⟨nofun, rfl, rfl⟩

variable {daemon}

theorem worker?_of_working {workers : List Worker} (h : daemon.phase = .working workers)
    (channel : String) : daemon.worker? channel = find? channel workers := by
  unfold worker?
  rw [h]

theorem worker?_eq_none (h : ∀ workers, daemon.phase ≠ .working workers) (channel : String) :
    daemon.worker? channel = none := by
  unfold worker?
  split
  · exact absurd ‹_› (h _)
  · rfl

end Daemon

open Daemon

/-- A daemon with what it has done; it is `halted` when it has taken a request to stop itself, as it
does while it has no workers. -/
structure Course where
  daemon : Daemon
  listings : List (Except LedgerError (List String)) := []
  deeds : List Deed := []
  halted : Bool := false

namespace Course

def moment (course : Course) (now : Nat) (stances : Stances) (session : Session) : Course :=
  let daemon := course.daemon.arrive now session
  { daemon := daemon.settleBy stances
    listings := course.listings ++ daemon.listingsNow stances.daemon
    deeds := course.deeds ++ daemon.deedsNow stances
    halted := course.halted || daemon.turn stances.daemon == .stop }

/-- The daemon at a moment, when the turn of its workers comes. -/
def readyAt (course : Course) (now : Nat) (stances : Stances) (session : Session) : Daemon :=
  (course.daemon.arrive now session).ready stances.daemon

def step (course : Course) : Happening → Course
  | .moment now stances session => course.moment now stances session
  | .shutdown => { course with daemon := course.daemon.shutdown }

def run (course : Course) (happenings : List Happening) : Course :=
  happenings.foldl step course

def deedsOn (course : Course) (channel : String) : List Deed :=
  Deed.onChannel channel course.deeds

/-- The monitored channels, once they are known. -/
def monitored? (course : Course) : Option (List String) :=
  Daemon.monitored? course.daemon.configured course.listings

/-- What the phase of a daemon tells about its record. -/
def PhaseTells (course : Course) : Phase → Prop
  | .starting => course.halted = false ∧ course.listings = [] ∧ course.deeds = []
  | .listing attempt _ =>
    course.halted = false ∧ course.daemon.configured = [] ∧
      (∀ answer ∈ course.listings, ∃ e, answer = .error e) ∧
      course.listings.length + 1 = attempt ∧ attempt ≤ listingPolicy.maxAttempts ∧
      course.deeds = []
  | .working workers =>
    course.halted = false ∧ Staff workers ∧ ∃ channels, course.monitored? = some channels
  | .finished =>
    (course.halted = true ∧ course.deeds = []) ∨
      (course.halted = false ∧ Ended course.daemon.configured course.listings course.deeds)

/-- The record of a daemon, channel by channel and by its phase. -/
structure Tells (course : Course) : Prop where
  history : ∃ began, ∀ channel,
    Worker.History course.daemon.period
      (hired? course.daemon.agent course.monitored? began channel) (course.deedsOn channel) ∧
    ∀ workers, course.daemon.phase = .working workers → find? channel workers
      = Worker.resume course.daemon.period
        (hired? course.daemon.agent course.monitored? began channel) (course.deedsOn channel)
  phase : course.PhaseTells course.daemon.phase

variable {daemon : Daemon} {listings : List (Except LedgerError (List String))}
  {deeds : List Deed} {halted : Bool}

theorem Tells.follow {channels : List String} (hdeeds : deeds = []) (hhalted : halted = false)
    (hmonitored : Daemon.monitored? daemon.configured listings = some channels) :
    Tells ⟨daemon.follow channels, listings, deeds, halted⟩ := by
  subst hdeeds
  have hchannels : Course.monitored? ⟨daemon.follow channels, listings, [], halted⟩
      = some channels := hmonitored
  refine ⟨⟨daemon.now, fun channel => ⟨trivial, ?_⟩⟩, ?_⟩
  · rintro _ ⟨⟩
    rw [hchannels]
    exact find?_hired ..
  · exact ⟨hhalted, staff_hired .., channels, hmonitored⟩

theorem monitored?_eq_none {configured : List String} (hconfigured : configured = [])
    (herrors : ∀ answer ∈ listings, ∃ e, answer = Except.error e) :
    Daemon.monitored? configured listings = none := by
  rw [Daemon.monitored?, if_pos hconfigured, List.findSome?_eq_none_iff]
  intro answer hanswer
  obtain ⟨e, rfl⟩ := herrors answer hanswer
  rfl

theorem Tells.beginWork (h : Tells ⟨daemon, listings, deeds, halted⟩) :
    Tells ⟨daemon.beginWork, listings, deeds, halted⟩ := by
  have hphase := h.phase
  unfold Daemon.beginWork
  split
  · rename_i hstarting
    rw [hstarting] at hphase
    obtain ⟨hhalted, hlistings, hdeeds⟩ := hphase
    split
    · rename_i hconfigured
      obtain rfl : listings = [] := hlistings
      obtain rfl : deeds = [] := hdeeds
      exact ⟨⟨0, fun channel => ⟨trivial, nofun⟩⟩, hhalted, hconfigured,
        fun _ hnil => absurd hnil List.not_mem_nil, rfl, by decide, rfl⟩
    · exact Tells.follow hdeeds hhalted (if_neg ‹_›)
  · exact h

/-- An answer with channels begins the work, and the last error ends it. -/
theorem Tells.listIfDue (h : Tells ⟨daemon, listings, deeds, halted⟩) :
    Tells ⟨daemon.listIfDue, listings ++ daemon.answersDue, deeds, halted⟩ := by
  rcases daemon.listIfDue_cases with
    ⟨attempt, due, hlisting, hdaemon, hanswers⟩ | ⟨hdaemon, hanswers⟩
  · have hphase := h.phase
    rw [hlisting] at hphase
    obtain ⟨hhalted, hconfigured, herrors, hcount, hlimit, hdeeds⟩ := hphase
    have hnone := monitored?_eq_none hconfigured herrors
    rw [hdaemon, hanswers, list_eq]
    generalize daemon.session.run (Program.query (.ledger .channels)) = ran
    obtain ⟨answer, session⟩ := ran
    cases answer with
    | ok channels =>
        refine Tells.follow hdeeds hhalted ?_
        unfold Daemon.monitored? at hnone ⊢
        rw [if_pos hconfigured] at hnone
        rw [if_pos hconfigured, List.findSome?_append, hnone]
        rfl
    | error e =>
        have herrors' : ∀ answer ∈ listings ++ [Except.error e], ∃ e, answer = .error e := by
          intro answer hanswer
          rcases List.mem_append.mp hanswer with hanswer | hanswer
          · exact herrors answer hanswer
          · exact ⟨e, List.mem_singleton.mp hanswer⟩
        have hcount' : (listings ++ [Except.error e]).length = attempt := by
          rw [List.length_append]
          exact hcount
        obtain rfl : deeds = [] := hdeeds
        dsimp only
        split
        · have hunlisted : Unlisted (listings ++ [Except.error e]) :=
            ⟨hcount'.trans (Nat.le_antisymm hlimit ‹_›), herrors'⟩
          exact ⟨⟨0, fun channel => ⟨trivial, nofun⟩⟩,
            .inr ⟨hhalted, .inl ⟨hconfigured, hunlisted, rfl⟩⟩⟩
        · refine ⟨⟨0, fun channel => ⟨trivial, nofun⟩⟩, hhalted, hconfigured, herrors', ?_, ?_, rfl⟩
          · exact congrArg (· + 1) hcount'
          · exact Nat.lt_of_not_le ‹_›
  · rwa [hdaemon, hanswers, List.append_nil]

/-- A round carries on the histories; one that leaves no worker has ended all of them. -/
theorem Tells.work (h : Tells ⟨daemon, listings, deeds, halted⟩) (stances : String → Stance) :
    Tells ⟨daemon.work stances, listings, deeds ++ daemon.deedsDue stances, halted⟩ := by
  rcases daemon.work_cases stances with
    ⟨workers, hworking, hdaemon, hdeeds⟩ | ⟨-, hdaemon, hdeeds⟩
  · have hphase := h.phase
    rw [hworking] at hphase
    obtain ⟨hhalted, hstaff, channels, hmonitored⟩ := hphase
    obtain ⟨began, hhistory⟩ := h.history
    have hround := fun channel => hstaff.history_round daemon.now stances daemon.session
      (hhistory channel).1 ((hhistory channel).2 workers hworking)
    rw [hdaemon, hdeeds]
    refine ⟨⟨began, fun channel => ⟨(hround channel).1, fun left hleft => ?_⟩⟩, ?_⟩
    · dsimp only at hleft
      split at hleft
      · cases hleft
      · obtain rfl := Phase.working.inj hleft
        exact (hround channel).2
    · dsimp only
      split
      · rename_i hempty
        refine .inr ⟨hhalted, .inr ⟨channels, hmonitored, fun channel hchannel => ?_⟩⟩
        obtain ⟨hhistory, hfind⟩ := hround channel
        rw [hmonitored, hired?, Option.getD_some, if_pos hchannel] at hhistory hfind
        rw [hempty] at hfind
        exact hhistory.resume_eq_none.mp hfind.symm
      · exact ⟨hhalted, hstaff.runWorkers _, channels, hmonitored⟩
  · rwa [hdaemon, hdeeds, List.append_nil]

/-! ### One moment -/

theorem Tells.deeds_eq_nil (h : Tells ⟨daemon, listings, deeds, halted⟩) {stance : Stance}
    (hturn : daemon.turn stance ≠ .work) : deeds = [] := by
  have hphase := h.phase
  unfold Daemon.turn at hturn
  cases hcase : daemon.phase with
  | starting =>
      rw [hcase] at hphase
      exact hphase.2.2
  | listing attempt due =>
      rw [hcase] at hphase
      exact hphase.2.2.2.2.2
  | working workers =>
      rw [hcase] at hturn
      exact absurd rfl hturn
  | finished =>
      rw [hcase] at hturn
      exact absurd rfl hturn

theorem Tells.ready (h : Tells ⟨daemon, listings, deeds, halted⟩) (stance : Stance) :
    Tells ⟨daemon.ready stance, listings ++ daemon.listingsNow stance, deeds,
      halted || daemon.turn stance == .stop⟩ := by
  unfold Daemon.ready listingsNow
  cases hturn : daemon.turn stance with
  | work =>
      rw [show (halted || Turn.work == .stop) = halted from Bool.or_false _]
      exact h.beginWork.listIfDue
  | wait =>
      rw [show (halted || Turn.wait == .stop) = halted from Bool.or_false _, List.append_nil]
      exact h
  | stop =>
      rw [show (halted || Turn.stop == .stop) = true from Bool.or_true _]
      have hidle : daemon.turn stance ≠ .work := by
        rw [hturn]
        nofun
      obtain rfl := h.deeds_eq_nil hidle
      exact ⟨⟨0, fun channel => ⟨trivial, nofun⟩⟩, .inl ⟨rfl, rfl⟩⟩

theorem Tells.readyAt {course : Course} (h : Tells course) (now : Nat) (stances : Stances)
    (session : Session) :
    Tells ⟨course.readyAt now stances session,
      course.listings ++ (course.daemon.arrive now session).listingsNow stances.daemon,
      course.deeds,
      course.halted || (course.daemon.arrive now session).turn stances.daemon == .stop⟩ :=
  have harrived : Tells ⟨course.daemon.arrive now session, course.listings, course.deeds,
      course.halted⟩ := ⟨h.history, h.phase⟩
  harrived.ready stances.daemon

/-- What holds of a course between two moments: a daemon without workers does not go on. -/
structure Kept (course : Course) : Prop where
  tells : Tells course
  busy : course.daemon.phase ≠ .working []

variable {course : Course}

theorem work_phase_ne (daemon : Daemon) (stances : String → Stance) :
    (daemon.work stances).phase ≠ .working [] := by
  rcases daemon.work_cases stances with ⟨workers, -, hdaemon, -⟩ | ⟨hother, hdaemon, -⟩
  · rw [hdaemon]
    dsimp only
    split
    · nofun
    · exact fun heq => ‹¬_› (Phase.working.inj heq)
  · rw [hdaemon]
    exact hother []

/-- **A moment.** -/
theorem Kept.moment (h : Kept course) (now : Nat) (stances : Stances) (session : Session) :
    Kept (course.moment now stances session) :=
  ⟨(h.tells.readyAt now stances session).work stances.worker, work_phase_ne _ _⟩

theorem Kept.step (h : Kept course) (happening : Happening) : Kept (course.step happening) := by
  cases happening with
  | moment now stances session => exact h.moment now stances session
  | shutdown => exact ⟨⟨h.tells.history, h.tells.phase⟩, h.busy⟩

theorem Kept.run (h : Kept course) (happenings : List Happening) :
    Kept (course.run happenings) := by
  induction happenings generalizing course with
  | nil => exact h
  | cons happening happenings ih => exact ih (h.step happening)

theorem kept_start {agent : Agent} {configured : List String} {period : Span} {site : Site}
    {notices : Option Notices} (h : start? agent configured period site notices = some daemon) :
    Kept { daemon := daemon } := by
  unfold start? at h
  split at h
  · cases h
  · obtain rfl := Option.some.inj h
    exact ⟨⟨⟨0, fun channel => ⟨trivial, nofun⟩⟩, rfl, rfl, rfl⟩, Phase.noConfusion⟩

/-- **The workers that are left** are those of the monitored channels on which no deed ended one. -/
theorem Tells.mem_staff (h : Tells course) {workers : List Worker} {channels : List String}
    {channel : String} (hworking : course.daemon.phase = .working workers)
    (hmonitored : course.monitored? = some channels) :
    channel ∈ workers.map (·.ingestor.channel) ↔
      channel ∈ channels ∧ ∀ deed ∈ course.deedsOn channel, deed.ends = false := by
  obtain ⟨began, hhistory⟩ := h.history
  obtain ⟨hhistory, hfind⟩ := hhistory channel
  have hfind := hfind workers hworking
  rw [hmonitored, hired?, Option.getD_some] at hhistory hfind
  rw [← not_iff_not, ← find?_eq_none, hfind]
  by_cases hchannel : channel ∈ channels
  · rw [if_pos hchannel] at hhistory ⊢
    rw [hhistory.resume_eq_none]
    simp [hchannel]
  · rw [if_neg hchannel] at hhistory ⊢
    simp [hhistory.eq_nil, Worker.resume, hchannel]

/-- **A daemon that has not finished** has a worker left, or has not begun. -/
theorem Kept.not_ended (h : Kept course) (hphase : course.daemon.phase ≠ .finished) :
    course.halted = false ∧
      ¬Ended course.daemon.configured course.listings course.deeds := by
  have htells := h.tells.phase
  cases hcase : course.daemon.phase with
  | finished => exact absurd hcase hphase
  | starting =>
      rw [hcase] at htells
      obtain ⟨hhalted, hlistings, hdeeds⟩ := htells
      refine ⟨hhalted, ?_⟩
      rintro (⟨-, hunlisted, -⟩ | ⟨channels, hmonitored, hended⟩)
      · rw [hlistings] at hunlisted
        exact absurd hunlisted.1 (by decide)
      · have hconfigured : course.daemon.configured ≠ [] := fun hnil => by
          have hnone : Daemon.monitored? course.daemon.configured [] = none :=
            monitored?_eq_none hnil fun _ hmem => absurd hmem List.not_mem_nil
          rw [hlistings, hnone] at hmonitored
          cases hmonitored
        rw [Daemon.monitored?, if_neg hconfigured] at hmonitored
        obtain ⟨channel, hchannel⟩ := List.exists_mem_of_ne_nil _ hconfigured
        obtain ⟨deed, hdeed, -⟩ := hended channel (Option.some.inj hmonitored ▸ hchannel)
        rw [hdeeds] at hdeed
        cases hdeed
  | listing attempt due =>
      rw [hcase] at htells
      obtain ⟨hhalted, hconfigured, herrors, hcount, hlimit, hdeeds⟩ := htells
      refine ⟨hhalted, ?_⟩
      rintro (⟨-, ⟨hlength, -⟩, -⟩ | ⟨channels, hmonitored, -⟩)
      · omega
      · rw [monitored?_eq_none hconfigured herrors] at hmonitored
        cases hmonitored
  | working workers =>
      rw [hcase] at htells
      obtain ⟨hhalted, -, channels, hmonitored⟩ := htells
      have hknown : Daemon.monitored? course.daemon.configured course.listings
          = some channels := hmonitored
      refine ⟨hhalted, ?_⟩
      rintro (⟨hconfigured, hunlisted, -⟩ | ⟨channels', hmonitored', hended⟩)
      · rw [monitored?_eq_none hconfigured hunlisted.2] at hknown
        cases hknown
      · obtain ⟨worker, hworker⟩ :=
          List.exists_mem_of_ne_nil workers fun hnil => h.busy (hnil ▸ hcase)
        obtain ⟨hchannel, hhealthy⟩ :=
          (h.tells.mem_staff hcase hmonitored).mp (List.mem_map_of_mem hworker)
        obtain rfl := Option.some.inj (hknown.symm.trans hmonitored')
        obtain ⟨deed, hdeed, hends⟩ := hended _ hchannel
        exact absurd ((hhealthy deed hdeed).symm.trans hends) (by decide)

theorem isFinished_iff : daemon.isFinished = true ↔ daemon.phase = .finished := by
  unfold Daemon.isFinished
  split
  · simp [*]
  · rename_i hother
    simpa using hother

/-- **A daemon has finished exactly when it took a request to stop, or all its workers have
ended.** -/
theorem Kept.finished_iff (h : Kept course) : course.daemon.isFinished = true ↔
    course.halted = true ∨ Ended course.daemon.configured course.listings course.deeds := by
  rw [isFinished_iff]
  constructor
  · intro hfinished
    have htells := h.tells.phase
    rw [hfinished] at htells
    rcases htells with ⟨hhalted, -⟩ | ⟨-, hended⟩
    · exact .inl hhalted
    · exact .inr hended
  · rintro hended
    by_contra hrunning
    obtain ⟨hhalted, hnot⟩ := h.not_ended hrunning
    rw [hhalted] at hended
    exact hended.elim (by decide) hnot

/-- A daemon that took a request to stop itself has never had a worker that did anything. -/
theorem Kept.deeds_of_halted (h : Kept course) (hhalted : course.halted = true) :
    course.deeds = [] := by
  by_cases hfinished : course.daemon.phase = .finished
  · have htells := h.tells.phase
    rw [hfinished] at htells
    rcases htells with ⟨-, hdeeds⟩ | ⟨hrunning, -⟩
    · exact hdeeds
    · exact absurd (hhalted.symm.trans hrunning) (by decide)
  · exact absurd (hhalted.symm.trans (h.not_ended hfinished).1) (by decide)

end Course

end LedgerIndex
