import LedgerIndex.Proofs.Ingest.Supervision

/-! # A worker among others

At a moment the worker of a channel has its turn, whatever the other workers do
(`Course.Kept.deedsOn_moment`).  Its calls depend on the answers to its own questions only: in two
courses in which a channel has the same worker, and with the same schedule for it, the deeds on the
channel are the same up to the first answer in which the courses differ (`Course.SameWorker.agree`),
whether or not other workers have ended. -/

namespace LedgerIndex

open Ingest Daemon

namespace Daemon

/-- What a daemon was started with. -/
def terms (daemon : Daemon) : Agent × List String × Nat :=
  (daemon.agent, daemon.configured, daemon.period)

/-- What no work changes. -/
def frame (daemon : Daemon) : (Agent × List String × Nat) × Nat :=
  (daemon.terms, daemon.now)

theorem frame_beginWork (daemon : Daemon) : daemon.beginWork.frame = daemon.frame := by
  obtain ⟨phase, hbegin⟩ := daemon.beginWork_frame
  rw [hbegin]
  rfl

theorem frame_listIfDue (daemon : Daemon) : daemon.listIfDue.frame = daemon.frame := by
  rcases daemon.listIfDue_cases with ⟨attempt, due, -, hdaemon, -⟩ | ⟨hdaemon, -⟩
  · obtain ⟨phase, hlist⟩ := daemon.list_frame attempt
    rw [hdaemon, hlist]
    rfl
  · rw [hdaemon]

theorem frame_ready (daemon : Daemon) (stance : Stance) :
    (daemon.ready stance).frame = daemon.frame := by
  unfold ready
  split
  · exact (frame_listIfDue _).trans (frame_beginWork daemon)
  · rfl
  · rfl

theorem frame_work (daemon : Daemon) (stances : String → Stance) :
    (daemon.work stances).frame = daemon.frame := by
  rcases daemon.work_cases stances with ⟨workers, -, hdaemon, -⟩ | ⟨-, hdaemon, -⟩
  · rw [hdaemon]
    rfl
  · rw [hdaemon]

/-- **One moment of a channel.**  Its worker has its turn, and nobody else does anything on it. -/
theorem onChannel_deedsDue (daemon : Daemon)
    (hstaff : ∀ workers, daemon.phase = .working workers → Staff workers)
    (stances : String → Stance) (channel : String) :
    Deed.onChannel channel (daemon.deedsDue stances)
        = deedAt daemon.now (stances channel) (daemon.worker? channel)
          (daemon.sessionFor stances channel) ∧
      (daemon.work stances).worker? channel = Worker.resume daemon.period (daemon.worker? channel)
        (deedAt daemon.now (stances channel) (daemon.worker? channel)
          (daemon.sessionFor stances channel)) := by
  rcases daemon.work_cases stances with
    ⟨workers, hworking, hdaemon, hdeeds⟩ | ⟨hother, hdaemon, hdeeds⟩
  · obtain ⟨hnew, hafter⟩ :=
      (hstaff workers hworking).round daemon.now daemon.period stances daemon.session channel
    have hsession : daemon.sessionFor stances channel
        = sessionAt channel daemon.now daemon.period stances workers daemon.session := by
      unfold sessionFor
      rw [hworking]
    refine ⟨by rw [hdeeds, hnew, worker?_of_working hworking, hsession], ?_⟩
    rw [hdaemon, worker?_of_working hworking, hsession, ← hafter]
    by_cases hempty :
        (runWorkers daemon.now daemon.period stances workers daemon.session).1 = []
    · rw [worker?_eq_none (by simp [hempty]), hempty]
      rfl
    · exact worker?_of_working (by simp [hempty]) channel
  · rw [hdeeds, hdaemon, worker?_eq_none hother]
    exact ⟨rfl, rfl⟩

end Daemon

namespace Course

variable {course : Course}

theorem terms_step (course : Course) (happening : Happening) :
    (course.step happening).daemon.terms = course.daemon.terms := by
  cases happening with
  | shutdown => rfl
  | moment now stances session =>
      have hframe := (frame_work ((course.daemon.arrive now session).ready stances.daemon)
        stances.worker).trans (frame_ready _ _)
      exact congrArg (·.1) hframe

theorem terms_run (course : Course) (happenings : List Happening) :
    (course.run happenings).daemon.terms = course.daemon.terms := by
  induction happenings generalizing course with
  | nil => rfl
  | cons happening happenings ih => exact (ih _).trans (terms_step course happening)

theorem Tells.staff (h : Tells course) {workers : List Worker}
    (hworking : course.daemon.phase = .working workers) :
    Staff workers ∧ ∃ channels, course.monitored? = some channels := by
  have hphase := h.phase
  rw [hworking] at hphase
  exact hphase.2

/-- The deeds on a channel at one moment, and the worker that they leave. -/
theorem Kept.deedsOn_moment (h : Kept course) (now : Nat) (stances : Stances) (session : Session)
    (channel : String) :
    let ready := course.readyAt now stances session
    let new := deedAt now (stances.worker channel) (ready.worker? channel)
      (ready.sessionFor stances.worker channel)
    (course.moment now stances session).deedsOn channel = course.deedsOn channel ++ new ∧
      (course.moment now stances session).daemon.worker? channel
        = Worker.resume course.daemon.period (ready.worker? channel) new := by
  intro ready new
  have htells := h.tells.readyAt now stances session
  have hframe := frame_ready (course.daemon.arrive now session) stances.daemon
  have hnow : ready.now = now := congrArg (·.2) hframe
  have hperiod : ready.period = course.daemon.period := congrArg (·.1.2.2) hframe
  obtain ⟨hnew, hafter⟩ := onChannel_deedsDue ready
    (fun workers hworking => (htells.staff hworking).1) stances.worker channel
  rw [hnow] at hnew
  rw [hnow, hperiod] at hafter
  exact ⟨Deed.onChannel_append.trans (congrArg _ hnew), hafter⟩

end Course

/-! ### Two courses -/

namespace Deed

/-- Deeds that are the same up to the first call in which the worker gets another answer. -/
def Agree (deeds deeds' : List Deed) : Prop :=
  deeds = deeds' ∨ ∃ before made made' later later', deeds = before ++ call made :: later ∧
    deeds' = before ++ call made' :: later' ∧ made.moment = made'.moment ∧
    made.before = made'.before ∧ Diverge made.asked made'.asked

theorem Agree.append {deeds deeds' later later' : List Deed} (h : Agree deeds deeds')
    (hlater : deeds = deeds' → Agree later later') : Agree (deeds ++ later) (deeds' ++ later') := by
  rcases h with rfl | ⟨before, made, made', rest, rest', rfl, rfl, hsame⟩
  · rcases hlater rfl with rfl | ⟨before, made, made', rest, rest', rfl, rfl, hsame⟩
    · exact .inl rfl
    · exact .inr ⟨deeds ++ before, made, made', rest, rest', by simp, by simp, hsame⟩
  · exact .inr ⟨before, made, made', rest ++ later, rest' ++ later', by simp, by simp, hsame⟩

theorem agree_deedAt (now : Nat) (stance : Stance) (worker? : Option Worker)
    {session session' : Session} (hstopped : session.stopped = session'.stopped) :
    Agree (deedAt now stance worker? session) (deedAt now stance worker? session') := by
  cases worker? with
  | none => exact .inl rfl
  | some worker =>
      unfold deedAt
      rw [Option.bind_some, Option.bind_some, Worker.deed?_eq, Worker.deed?_eq, hstopped]
      cases stance.turn session'.stopped worker.due now with
      | stop => exact .inl rfl
      | wait => exact .inl rfl
      | work =>
          rcases worker.callIn_diverges now session session' with hsame | hdiverge
          · exact .inl (congrArg (fun made => [call made]) hsame)
          · exact .inr ⟨[], _, _, [], [], rfl, rfl, rfl, rfl, hdiverge⟩

end Deed

namespace Daemon

variable {daemon : Daemon} {stance : Stance}

/-- The worker that a channel has, or gets at that moment because it is configured. -/
def workerAt? (daemon : Daemon) (now : Nat) (channel : String) : Option Worker :=
  match daemon.phase with
  | .starting =>
    if channel ∈ daemon.configured then some (Worker.start daemon.agent now channel) else none
  | .working workers => find? channel workers
  | _ => none

/-- A daemon that has its workers, or gets them when it begins its work. -/
def Begun (daemon : Daemon) : Prop :=
  match daemon.phase with
  | .starting => daemon.configured ≠ []
  | .listing .. => False
  | _ => True

/-- A daemon with workers, or one that has finished. -/
def Manned (daemon : Daemon) : Prop :=
  (∃ workers, daemon.phase = .working workers) ∨ daemon.phase = .finished

theorem Manned.begun (h : Manned daemon) : Begun daemon := by
  unfold Begun
  rcases h with ⟨workers, h⟩ | h
  all_goals
    rw [h]
    trivial

theorem Manned.listIfDue_beginWork (h : Manned daemon) : daemon.beginWork.listIfDue = daemon := by
  rcases h with ⟨workers, h⟩ | h
  all_goals simp only [beginWork, listIfDue, h]

theorem Manned.workerAt? (h : Manned daemon) (now : Nat) (channel : String) :
    daemon.workerAt? now channel = daemon.worker? channel := by
  unfold Daemon.workerAt? worker?
  rcases h with ⟨workers, h⟩ | h
  all_goals rw [h]

theorem Manned.work (h : Manned daemon) (stances : String → Stance) :
    Manned (daemon.work stances) := by
  rcases daemon.work_cases stances with ⟨workers, -, hdaemon, -⟩ | ⟨-, hdaemon, -⟩
  · rw [hdaemon]
    by_cases hempty :
        (runWorkers daemon.now daemon.period stances workers daemon.session).1 = []
    · exact .inr (if_pos hempty)
    · exact .inl ⟨_, if_neg hempty⟩
  · rwa [hdaemon]

theorem Begun.ready (h : Begun daemon) (hturn : daemon.turn stance = .work) (channel : String) :
    Manned (daemon.ready stance) ∧
      (daemon.ready stance).worker? channel = daemon.workerAt? daemon.now channel := by
  unfold Begun at h
  unfold Daemon.ready Daemon.workerAt?
  rw [hturn]
  cases hphase : daemon.phase with
  | starting =>
      rw [hphase] at h
      have hready : daemon.beginWork.listIfDue = daemon.follow daemon.configured := by
        simp only [beginWork, hphase, if_neg h]
        rfl
      simp only [hready]
      exact ⟨.inl ⟨_, rfl⟩, find?_hired ..⟩
  | listing attempt due =>
      rw [hphase] at h
      exact h.elim
  | working workers =>
      have hmanned : Manned daemon := .inl ⟨workers, hphase⟩
      simp only [hmanned.listIfDue_beginWork]
      exact ⟨hmanned, worker?_of_working hphase channel⟩
  | finished =>
      have hmanned : Manned daemon := .inr hphase
      simp only [hmanned.listIfDue_beginWork]
      exact ⟨hmanned, worker?_eq_none (by simp [hphase]) channel⟩

/-- A daemon that waits or stops itself leaves nothing to its workers. -/
theorem phase_ready_ne (hturn : daemon.turn stance ≠ .work) (workers : List Worker) :
    (daemon.ready stance).phase ≠ .working workers := by
  intro hphase
  unfold Daemon.ready at hphase
  split at hphase
  · exact hturn ‹_›
  · cases hphase
  · unfold Daemon.turn at hturn
    rw [hphase] at hturn
    exact hturn rfl

end Daemon

namespace Course

variable {course x y : Course} {channel : String}

/-- A moment of a daemon that has begun, at which its workers have their turn. -/
theorem Kept.moment_of_begun (h : Kept course) (hbegun : course.daemon.Begun) {now : Nat}
    {stances : Stances} {session : Session}
    (hturn : (course.daemon.arrive now session).turn stances.daemon = .work) (channel : String) :
    let new := deedAt now (stances.worker channel) (course.daemon.workerAt? now channel)
      ((course.readyAt now stances session).sessionFor stances.worker channel)
    (course.moment now stances session).deedsOn channel = course.deedsOn channel ++ new ∧
      (course.moment now stances session).daemon.Begun ∧
      ∀ later, (course.moment now stances session).daemon.workerAt? later channel
        = Worker.resume course.daemon.period (course.daemon.workerAt? now channel) new := by
  have harrived : (course.daemon.arrive now session).Begun := hbegun
  obtain ⟨hmanned, hworker⟩ := harrived.ready hturn channel
  obtain ⟨hdeeds, hafter⟩ := h.deedsOn_moment now stances session channel
  have hmanned : Manned (course.moment now stances session).daemon := hmanned.work stances.worker
  rw [show (course.readyAt now stances session).worker? channel = _ from hworker] at hdeeds hafter
  exact ⟨hdeeds, hmanned.begun, fun later => (hmanned.workerAt? later channel).trans hafter⟩

theorem moment_of_idle {now : Nat} {stances : Stances} {session : Session}
    (hturn : (course.daemon.arrive now session).turn stances.daemon ≠ .work) :
    (course.moment now stances session).daemon = course.readyAt now stances session ∧
      (course.moment now stances session).deeds = course.deeds := by
  rcases (course.readyAt now stances session).work_cases stances.worker with
    ⟨workers, hworking, -, -⟩ | ⟨-, hdaemon, hdeeds⟩
  · exact absurd hworking (phase_ready_ne hturn workers)
  · exact ⟨hdaemon, (congrArg _ hdeeds).trans (List.append_nil _)⟩

theorem begun_of_idle (channel : String) (h : course.daemon.Begun) {now : Nat}
    {stances : Stances} {session : Session}
    (hturn : (course.daemon.arrive now session).turn stances.daemon ≠ .work) :
    (course.moment now stances session).daemon.Begun ∧
      ∀ later, (course.moment now stances session).daemon.workerAt? later channel
        = if (course.daemon.arrive now session).turn stances.daemon = .wait
          then course.daemon.workerAt? later channel else none := by
  rw [(moment_of_idle hturn).1]
  unfold readyAt Daemon.ready
  cases hcase : (course.daemon.arrive now session).turn stances.daemon with
  | work => exact absurd hcase hturn
  | wait => exact ⟨h, fun _ => rfl⟩
  | stop => exact ⟨trivial, fun _ => rfl⟩

/-- What a moment is for the worker of a channel: its time, what the daemon itself does, the stance
of the worker, and whether a request to stop is there. -/
structure Occasion where
  now : Nat
  turn : Turn
  stance : Stance
  stopped : Bool

/-- A moment as the worker of a channel has it. -/
def occasion (course : Course) (channel : String) (now : Nat) (stances : Stances)
    (session : Session) : Occasion where
  now := now
  turn := (course.daemon.arrive now session).turn stances.daemon
  stance := stances.worker channel
  stopped :=
    ((course.readyAt now stances session).sessionFor stances.worker channel).stopped

def schedule (course : Course) (channel : String) : List Happening → List (Option Occasion)
  | [] => []
  | happening :: happenings =>
    let occasion? := match happening with
      | .moment now stances session => some (course.occasion channel now stances session)
      | .shutdown => none
    occasion? :: (course.step happening).schedule channel happenings

/-- Two courses in which a channel has the same worker. -/
structure SameWorker (channel : String) (x y : Course) : Prop where
  worker : ∀ now, x.daemon.workerAt? now channel = y.daemon.workerAt? now channel
  begun : x.daemon.Begun ∧ y.daemon.Begun
  period : x.daemon.period = y.daemon.period

theorem deedsOn_run (course : Course) (happenings : List Happening) (channel : String) :
    ∃ new, (course.run happenings).deedsOn channel = course.deedsOn channel ++ new := by
  induction happenings generalizing course with
  | nil => exact ⟨[], (List.append_nil _).symm⟩
  | cons happening happenings ih =>
      obtain ⟨later, hlater⟩ := ih (course.step happening)
      cases happening with
      | shutdown => exact ⟨later, hlater⟩
      | moment now stances session =>
          refine ⟨Deed.onChannel channel ((course.daemon.arrive now session).deedsNow stances)
            ++ later, hlater.trans ?_⟩
          rw [← List.append_assoc]
          exact congrArg (· ++ later) Deed.onChannel_append

theorem SameWorker.moment (h : SameWorker channel x y) (hx : Kept x) (hy : Kept y)
    {now now' : Nat} {stances stances' : Stances} {session session' : Session}
    (hoccasion : x.occasion channel now stances session
      = y.occasion channel now' stances' session') :
    ∃ new new', (x.moment now stances session).deedsOn channel = x.deedsOn channel ++ new ∧
      (y.moment now' stances' session').deedsOn channel = y.deedsOn channel ++ new' ∧
      Deed.Agree new new' ∧
      (new = new' → SameWorker channel (x.moment now stances session)
        (y.moment now' stances' session')) := by
  have hperiod : (x.moment now stances session).daemon.period
      = (y.moment now' stances' session').daemon.period :=
    (congrArg (·.2.2) (terms_step x (.moment now stances session))).trans
      (h.period.trans (congrArg (·.2.2) (terms_step y (.moment now' stances' session'))).symm)
  obtain ⟨hnow, hturn, hstance, hstopped⟩ := Occasion.mk.inj hoccasion
  subst hnow
  by_cases hwork : (x.daemon.arrive now session).turn stances.daemon = .work
  · obtain ⟨hxdeeds, hxbegun, hxafter⟩ := hx.moment_of_begun h.begun.1 hwork channel
    obtain ⟨hydeeds, hybegun, hyafter⟩ :=
      hy.moment_of_begun h.begun.2 (hturn.symm.trans hwork) channel
    rw [← h.worker now, ← hstance] at hydeeds hyafter
    refine ⟨_, _, hxdeeds, hydeeds, Deed.agree_deedAt _ _ _ hstopped, fun heq => ?_⟩
    refine ⟨fun later => ?_, ⟨hxbegun, hybegun⟩, hperiod⟩
    rw [hxafter, hyafter, heq, h.period]
  · have hywork := fun heq => hwork (hturn.trans heq)
    obtain ⟨hxbegun, hxafter⟩ := begun_of_idle channel h.begun.1 hwork
    obtain ⟨hybegun, hyafter⟩ := begun_of_idle channel h.begun.2 hywork
    have hxdeeds := congrArg (Deed.onChannel channel) (moment_of_idle hwork).2
    have hydeeds := congrArg (Deed.onChannel channel) (moment_of_idle hywork).2
    refine ⟨[], [], hxdeeds.trans (List.append_nil _).symm, hydeeds.trans (List.append_nil _).symm,
      .inl rfl, fun _ => ⟨fun later => ?_, ⟨hxbegun, hybegun⟩, hperiod⟩⟩
    rw [hxafter, hyafter, hturn, h.worker]

/-- **The other workers do not matter.** -/
theorem SameWorker.agree (h : SameWorker channel x y) (hx : Kept x) (hy : Kept y)
    {happenings happenings' : List Happening}
    (hschedule : x.schedule channel happenings = y.schedule channel happenings') :
    ∃ new new', (x.run happenings).deedsOn channel = x.deedsOn channel ++ new ∧
      (y.run happenings').deedsOn channel = y.deedsOn channel ++ new' ∧
      Deed.Agree new new' := by
  induction happenings generalizing x y happenings' with
  | nil =>
      cases happenings' with
      | nil => exact ⟨[], [], (List.append_nil _).symm, (List.append_nil _).symm, .inl rfl⟩
      | cons happening' happenings' => cases hschedule
  | cons happening happenings ih =>
      cases happenings' with
      | nil => cases hschedule
      | cons happening' happenings' =>
          obtain ⟨hoccasion, htail⟩ := List.cons.inj hschedule
          cases happening with
          | shutdown =>
              cases happening' with
              | moment now stances session => cases hoccasion
              | shutdown =>
                  have hsame : SameWorker channel (x.step .shutdown) (y.step .shutdown) :=
                    ⟨h.worker, h.begun, h.period⟩
                  exact ih hsame (hx.step .shutdown) (hy.step .shutdown) htail
          | moment now stances session =>
              cases happening' with
              | shutdown => cases hoccasion
              | moment now' stances' session' =>
                  obtain ⟨new, new', hxdeeds, hydeeds, hagree, hsame⟩ :=
                    h.moment hx hy (Option.some.inj hoccasion)
                  obtain ⟨later, later', hxlater, hylater, hlater⟩ : ∃ later later',
                      (x.run (.moment now stances session :: happenings)).deedsOn channel
                          = (x.moment now stances session).deedsOn channel ++ later ∧
                        (y.run (.moment now' stances' session' :: happenings')).deedsOn channel
                          = (y.moment now' stances' session').deedsOn channel ++ later' ∧
                        (new = new' → Deed.Agree later later') := by
                    by_cases heq : new = new'
                    · obtain ⟨later, later', hxlater, hylater, hlater⟩ :=
                        ih (hsame heq) (hx.moment now stances session)
                          (hy.moment now' stances' session') htail
                      exact ⟨later, later', hxlater, hylater, fun _ => hlater⟩
                    · obtain ⟨later, hxlater⟩ :=
                        deedsOn_run (x.moment now stances session) happenings channel
                      obtain ⟨later', hylater⟩ :=
                        deedsOn_run (y.moment now' stances' session') happenings' channel
                      exact ⟨later, later', hxlater, hylater, fun h => absurd h heq⟩
                  rw [hxdeeds, List.append_assoc] at hxlater
                  rw [hydeeds, List.append_assoc] at hylater
                  exact ⟨_, _, hxlater, hylater, hagree.append hlater⟩

end Course

end LedgerIndex
