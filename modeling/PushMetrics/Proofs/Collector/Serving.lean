import PushMetrics.Collector.Serving
import PushMetrics.Proofs.Http.Update
import PushMetrics.Proofs.Manager.Layering
import PushMetrics.Proofs.Store.Resting

/-!
# Acknowledged updates survive a graceful stop

As long as a collector serves, every update that is not over is in the hands of a connection, and what has been
answered has been written. It returns without an error only when all connections have gone; so nothing is at work
any more when the store is closed, and the last snapshot is one of everything that has been written.
-/

namespace PushMetrics.Collector

open Manager

def ServingStage.isClosing : ServingStage → Bool
  | .closing _ | .stopped _ => true
  | _ => false

/-- Whether the collector has returned without an error. -/
def ServingStage.hasReturned : ServingStage → Bool
  | .returned isOk => isOk
  | _ => false

/-- Whether the store has been closed without an error. -/
def ServingStage.hasStopped : ServingStage → Bool
  | .stopped (.ok _) => true
  | _ => false

theorem ServingStage.eq_returned {stage : ServingStage} (h : stage.hasReturned) : stage = .returned true := by
  unfold ServingStage.hasReturned at h
  split at h
  · rw [h]
  · cases h

theorem ServingStage.eq_stopped {stage : ServingStage} (h : stage.hasStopped) : stage = .stopped (.ok ()) := by
  unfold ServingStage.hasStopped at h
  split at h
  · rfl
  · cases h

/-- The update that a connection has in its hands. -/
def Connection.number? (c : Connection) : Option Nat :=
  match c.stage with
  | .updating number | .leaving number => some number
  | .idle | .reading | .gone => none

namespace Serving

variable {first contents : Contents} {s s' t start : Serving} {id n : Nat} {c c' : Connection} {label : ServingStep}
  {r : Http.Request} {traffic : Traffic Layered} {path : Path}

/-- What holds of a collector whose store has not begun to close. -/
structure Tended (path : Path) (first : Contents) (s : Serving) : Prop where
  path : s.traffic.store.path = path
  stage : s.stage.isClosing = false
  logged : Logged first s.traffic
  /-- An update that is not over is in the hands of a connection. -/
  attended : ∀ n w, s.traffic.works.get? n = some w → (∃ answer, w.stage = .ended answer) ∨
    ∃ id c, s.connections.get? id = some c ∧ c.number? = some n
  /-- Every update is what a request has asked for. -/
  numbered : ∀ n w, s.traffic.works.get? n = some w → ∃ r, s.updates[n]? = some r ∧ r.update? = some w.request
  /-- An answer tells how its update has ended. -/
  answered : ∀ e ∈ s.answers, ∃ request result, s.traffic.works.get? e.1 = some ⟨request, .ended (some result)⟩ ∧
    e.2 = Http.respond request result
  gone : s.stage = .returned true → ∀ id c, s.connections.get? id = some c → c.stage = .gone

theorem tended_fresh (path : Path) (writeThrough : Bool) (first : Contents) (disk : Disk) (ttl : Nat) :
    Tended path first (fresh (.fresh path writeThrough ⟨first, true⟩ disk) ttl) where
  path := rfl
  stage := rfl
  logged := logged_fresh path writeThrough first disk ttl
  attended _ _ h := by cases h
  numbered _ _ h := by cases h
  answered _ h := by cases h
  gone h := by cases h

/-! ## Steps of the traffic and of one connection -/

/-- The updates go on, and none of them is new. -/
theorem Tended.ofTraffic (h : s.Tended path first) {label : LayeredTrafficStep}
    (hs : s.traffic.layered label = some traffic)
    (hlabel : ∀ n request, label ≠ .work (.arrive n request)) : Tended path first { s with traffic } := by
  obtain ⟨hreworks, hages⟩ := Traffic.reworks hs
  have hbefore : ∀ {n w}, traffic.works.get? n = some w → ∃ v, s.traffic.works.get? n = some v ∧
      v.request = w.request ∧ ∀ answer, v.stage = .ended answer → v = w :=
    fun hw => (hreworks.before hw).resolve_right (hlabel _ _)
  refine ⟨hages.path.trans h.path, h.stage, h.logged.step hs, fun n w hw => ?_, fun n w hw => ?_, fun e he => ?_,
    h.gone⟩
  · obtain ⟨v, hv, -, hended⟩ := hbefore hw
    exact (h.attended n v hv).imp_left fun ⟨answer, hanswer⟩ => ⟨answer, hended answer hanswer ▸ hanswer⟩
  · obtain ⟨v, hv, hrequest, -⟩ := hbefore hw
    exact hrequest ▸ h.numbered n v hv
  · obtain ⟨request, result, hwork, hresponse⟩ := h.answered e he
    exact ⟨request, result, hreworks.ended hwork, hresponse⟩

/-- A connection goes on; it lets go of an update only if that is over. -/
theorem Tended.setConnection (h : s.Tended path first) (hid : s.connections.get? id = some c)
    (hgone : c.stage = .gone → c'.stage = .gone)
    (hkept : ∀ n, c.number? = some n → c'.number? = some n ∨
      ∀ w, s.traffic.works.get? n = some w → ∃ answer, w.stage = .ended answer) :
    (s.setConnection id c').Tended path first := by
  refine ⟨h.path, h.stage, h.logged, fun n w hw => ?_, h.numbered, h.answered, fun hreturned j d hj => ?_⟩
  · obtain hended | ⟨j, d, hj, hholds⟩ := h.attended n w hw
    · exact .inl hended
    · by_cases hne : id = j
      · subst hne
        obtain rfl := Option.some.inj (hid.symm.trans hj)
        rcases hkept n hholds with hholds | hended
        · exact .inr ⟨id, c', Dict.get?_put_self _ _ _, hholds⟩
        · exact .inl (hended w hw)
      · exact .inr ⟨j, d, (Dict.get?_put_of_ne _ _ hne).trans hj, hholds⟩
  · rcases Dict.of_get?_put hj with ⟨rfl, rfl⟩ | ⟨-, hj⟩
    · exact hgone (h.gone hreturned id c hid)
    · exact h.gone hreturned j d hj

theorem Tended.receive (h : s.Tended path first) (hid : s.connections.get? id = some c) (hserving : s.stage.isServing)
    (hidle : c.stage = .idle) (hs : s.receive id c r = some t) : t.Tended path first := by
  have hfree : c.number? = none := by rw [Connection.number?, hidle]
  unfold Serving.receive at hs
  split at hs
  · cases hs
    exact h.setConnection hid (by simp [hidle]) (by simp [hfree])
  · rename_i request hrequest
    obtain ⟨traffic, harrive, rfl⟩ := Option.map_eq_some_iff.1 hs
    obtain ⟨hreworks, hages⟩ := Traffic.reworks harrive
    have hnumbered : ∀ {n r'}, s.updates[n]? = some r' → (s.updates ++ [r])[n]? = some r' := fun hn => by
      rw [List.getElem?_append_left (List.getElem?_eq_some_iff.1 hn).1, hn]
    refine ⟨hages.path.trans h.path, h.stage, h.logged.step harrive, fun n w hw => ?_, fun n w hw => ?_,
      fun e he => ?_, fun hreturned => ?_⟩
    · obtain ⟨v, hv, -, hended⟩ | harrival := hreworks.before hw
      · obtain ⟨answer, hanswer⟩ | ⟨j, d, hj, hholds⟩ := h.attended n v hv
        · exact .inl ⟨answer, hended answer hanswer ▸ hanswer⟩
        · have hne : id ≠ j := by
            rintro rfl
            obtain rfl := Option.some.inj (hid.symm.trans hj)
            cases hfree.symm.trans hholds
          exact .inr ⟨j, d, (Dict.get?_put_of_ne _ _ hne).trans hj, hholds⟩
      · cases harrival
        exact .inr ⟨id, _, Dict.get?_put_self _ _ _, rfl⟩
    · obtain ⟨v, hv, hsame, -⟩ | harrival := hreworks.before hw
      · obtain ⟨r', hr', hupdate⟩ := h.numbered n v hv
        exact ⟨r', hnumbered hr', hsame ▸ hupdate⟩
      · injection harrival with harrival
        injection harrival with hn hrequest'
        subst hn
        exact ⟨r, List.getElem?_concat_length, hrequest' ▸ hrequest⟩
    · obtain ⟨request, result, hwork, hresponse⟩ := h.answered e he
      exact ⟨request, result, hreworks.ended hwork, hresponse⟩
    · have hreturned : s.stage = .returned true := hreturned
      rw [hreturned] at hserving
      cases hserving

theorem Tended.answer (h : s.Tended path first) (hid : s.connections.get? id = some c) (hs : s.answer id c = some t) :
    t.Tended path first := by
  unfold Serving.answer at hs
  split at hs
  · rename_i n hstage
    split at hs
    · rename_i request result hwork
      cases hs
      have hanswers : Tended path first { s with answers := s.answers ++ [(n, Http.respond request result)] } := by
        refine { h with answered := fun e he => ?_ }
        rcases List.mem_append.1 he with he | he
        · exact h.answered e he
        · obtain rfl := List.mem_singleton.1 he
          exact ⟨request, result, hwork, rfl⟩
      refine hanswers.setConnection hid (by simp [hstage]) fun j hholds => .inr fun w hw => ?_
      rw [Connection.number?, hstage] at hholds
      cases hholds
      cases hwork.symm.trans hw
      exact ⟨_, rfl⟩
    · cases hs
  · rename_i hstage
    cases hs
    exact h.setConnection hid (by simp [hstage]) (by simp [Connection.number?, hstage])
  · cases hs

theorem Tended.cut (h : s.Tended path first) (hid : s.connections.get? id = some c) (hs : s.cut id c = some t) :
    t.Tended path first := by
  unfold Serving.cut at hs
  split at hs
  · rename_i n hstage
    cases hs
    have htraffic : Tended path first { s with traffic := (s.traffic.layered (.work (.drop n))).getD s.traffic } := by
      cases hdrop : s.traffic.layered (.work (.drop n)) with
      | none => exact h
      | some traffic => exact h.ofTraffic hdrop (by rintro _ _ ⟨⟩)
    exact htraffic.setConnection hid (by simp [hstage]) (by simp [Connection.number?, hstage])
  · rename_i hstage
    cases hs
    exact h.setConnection hid (fun _ => rfl) (by simp [Connection.number?, hstage])
  · rename_i hstage
    cases hs
    exact h.setConnection hid (fun _ => rfl) (by simp [Connection.number?, hstage])
  · cases hs
  · cases hs

theorem Tended.leave (h : s.Tended path first) (hid : s.connections.get? id = some c) (hs : s.leave id c = some t) :
    t.Tended path first := by
  unfold Serving.leave at hs
  split at hs
  · rename_i n hstage
    split at hs
    · rename_i hwork
      cases hs
      refine h.setConnection hid (fun _ => rfl) fun j hholds => .inr fun w hw => ?_
      rw [Connection.number?, hstage] at hholds
      cases hholds
      cases hwork.symm.trans hw
      exact ⟨_, rfl⟩
    · cases hs
  · cases hs

theorem Tended.connectionStep (h : s.Tended path first) (hid : s.connections.get? id = some c)
    (hs : s.connectionStep id c label = some t) : t.Tended path first := by
  cases label with
  | receive _ r =>
      simp only [Serving.connectionStep] at hs
      split at hs
      · rename_i hready
        exact h.receive hid hready.1 hready.2 hs
      · cases hs
  | answer => exact h.answer hid hs
  | cut => exact h.cut hid hs
  | leave => exact h.leave hid hs
  | tell =>
      simp only [Serving.connectionStep] at hs
      split at hs
      · cases hs
        exact h.setConnection hid (fun hgone => hgone) fun n hholds => .inl hholds
      · cases hs
  | _ => cases hs

/-! ## Steps of the collector -/

theorem Tended.step (h : s.Tended path first) (hlabel : label ≠ .close) (hs : s.step label = some t) :
    t.Tended path first := by
  cases label with
  | connect id =>
      simp only [Serving.step] at hs
      split at hs
      · rename_i hstage
        split at hs
        · cases hs
        · rename_i hnew
          cases hs
          have hnew : s.connections.get? id = none := by simpa using hnew
          refine { h with attended := fun n w hw => ?_, gone := fun hreturned => ?_ }
          · obtain hended | ⟨j, d, hj, hholds⟩ := h.attended n w hw
            · exact .inl hended
            · have hne : id ≠ j := by
                rintro rfl
                cases hnew.symm.trans hj
              exact .inr ⟨j, d, (Dict.get?_put_of_ne _ _ hne).trans hj, hholds⟩
          · cases hstage.symm.trans hreturned
      · cases hs
  | receive | answer | cut | leave | tell =>
      obtain ⟨c, hid, hs⟩ := Option.bind_eq_some_iff.1 hs
      exact h.connectionStep hid hs
  | stop =>
      cases hs
      exact { h with }
  | stopAccepting =>
      simp only [Serving.step] at hs
      split at hs
      · split at hs
        · cases hs
          exact { h with stage := rfl, gone := by rintro ⟨⟩ }
        · cases hs
      · cases hs
  | acceptFails =>
      simp only [Serving.step] at hs
      split at hs
      · cases hs
        exact { h with stage := rfl, gone := by rintro ⟨⟩ }
      · cases hs
  | finish =>
      simp only [Serving.step] at hs
      split at hs
      · split at hs
        · rename_i hall
          cases hs
          refine { h with stage := rfl, gone := fun _ id c hid => ?_ }
          simpa using List.all_eq_true.1 hall c (Dict.mem_values_iff.2 ⟨id, hid⟩)
        · cases hs
      · cases hs
  | close => exact absurd rfl hlabel
  | closed =>
      simp only [Serving.step] at hs
      split at hs
      · rename_i hstage
        have hopen := h.stage
        rw [hstage] at hopen
        cases hopen
      · cases hs
  | traffic label =>
      simp only [Serving.step] at hs
      split at hs
      · rename_i hown
        obtain ⟨traffic, hstep, rfl⟩ := Option.map_eq_some_iff.1 hs
        exact h.ofTraffic hstep (by rintro _ _ rfl; cases hown)
      · cases hs

theorem stage_connectionStep (hs : s.connectionStep id c label = some t) : t.stage = s.stage := by
  cases label with
  | receive =>
      simp only [Serving.connectionStep, Serving.receive] at hs
      split at hs
      · split at hs
        · cases hs
          rfl
        · obtain ⟨traffic, -, rfl⟩ := Option.map_eq_some_iff.1 hs
          rfl
      · cases hs
  | answer | cut | leave | tell =>
      simp only [Serving.connectionStep, Serving.answer, Serving.cut, Serving.leave] at hs
      repeat' split at hs
      all_goals cases hs
      all_goals rfl
  | _ => cases hs

/-- The store does not open again. -/
theorem isClosing_step (h : s.stage.isClosing) (hs : s.step label = some t) : t.stage.isClosing := by
  cases label with
  | receive | answer | cut | leave | tell =>
      obtain ⟨c, -, hs⟩ := Option.bind_eq_some_iff.1 hs
      rwa [stage_connectionStep hs]
  | stop =>
      cases hs
      exact h
  | closed =>
      simp only [Serving.step] at hs
      repeat' split at hs
      all_goals cases hs
      rfl
  | traffic label =>
      simp only [Serving.step] at hs
      split at hs
      · obtain ⟨traffic, -, rfl⟩ := Option.map_eq_some_iff.1 hs
        exact h
      · cases hs
  | _ =>
      simp only [Serving.step] at hs
      split at hs
      · rename_i hstage
        rw [hstage] at h
        cases h
      · cases hs

theorem isClosing_close (hs : s.step .close = some t) : t.stage.isClosing := by
  simp only [Serving.step] at hs
  split at hs
  · obtain ⟨traffic, -, rfl⟩ := Option.map_eq_some_iff.1 hs
    rfl
  · cases hs

theorem tended_of_stepwise {path : Path} {writeThrough : Bool} {disk : Disk} {ttl : Nat} {labels : List ServingStep}
    (h : stepwise step (fresh (.fresh path writeThrough ⟨first, true⟩ disk) ttl) labels = some s)
    (hstage : s.stage.isClosing = false) : s.Tended path first := by
  have hall : s.Tended path first ∨ s.stage.isClosing := by
    refine stepwise_keeps (P := fun s => Tended path first s ∨ s.stage.isClosing) h
      (.inl (tended_fresh path writeThrough first disk ttl)) fun s label t _ hs hstep => ?_
    rcases hs with htended | hclosing
    · by_cases hlabel : label = .close
      · subst hlabel
        exact .inr (isClosing_close hstep)
      · exact .inl (htended.step hlabel hstep)
    · exact .inr (isClosing_step hclosing hstep)
  refine hall.resolve_right fun hclosing => ?_
  cases hstage.symm.trans hclosing

/-! ## Nothing is at work any more -/

/-- No handler is running: every connection has gone, every update is over, and so is every operation of the layer. -/
structure IsIdle (s : Serving) : Prop where
  connections : ∀ id c, s.connections.get? id = some c → c.stage = .gone
  updates : ∀ n w, s.traffic.works.get? n = some w → ∃ answer, w.stage = .ended answer
  operations : ∀ n o stage, s.traffic.store.operations.get? n = some (o, stage) → stage.isOver

/-- When a collector has returned without an error, nothing is at work any more. -/
theorem Tended.isIdle (h : s.Tended path first) (hreturned : s.stage = .returned true) : s.IsIdle := by
  have hgone := h.gone hreturned
  have hended : ∀ n w, s.traffic.works.get? n = some w → ∃ answer, w.stage = .ended answer := by
    intro n w hw
    refine (h.attended n w hw).resolve_right fun ⟨id, c, hid, hholds⟩ => ?_
    rw [Connection.number?, hgone id c hid] at hholds
    cases hholds
  refine ⟨hgone, hended, fun n o stage hoperation => ?_⟩
  obtain ⟨w, hw, hcarries⟩ := h.logged.1.operations n o stage hoperation
  obtain ⟨answer, hanswer⟩ := hended n w hw
  rcases hcarries with ⟨⟨change, hchange, -⟩, -⟩ | ⟨hover, -⟩
  · rw [Work.change?, hanswer] at hchange
    cases hchange
  · exact hover

/-! ## Closing -/

/-- A collector that has been idle when its store began to close: only the layer itself goes on, and when it has closed
without an error, the file has what the store held. -/
structure Rests (contents : Contents) (start s : Serving) : Prop where
  connections : ∀ id c, s.connections.get? id = some c → c.stage = .gone
  works : s.traffic.works = start.traffic.works
  answers : s.answers = start.answers
  updates : s.updates = start.updates
  applied : s.traffic.store.applied = start.traffic.store.applied
  path : s.traffic.store.path = start.traffic.store.path
  concludes : s.traffic.store.Concludes contents start.updates.length
  stage : s.stage = .closing start.updates.length ∨ ∃ result dumped, s.stage = .stopped result ∧
    s.traffic.store.operations.get? start.updates.length = some (.close, .ended result dumped)

theorem Tended.rests (h : s.Tended path first) (hidle : s.IsIdle) (hs : s.step .close = some t) :
    Rests (first.applyAll (s.traffic.store.applied.map (·.2))) s t := by
  simp only [Serving.step] at hs
  split at hs
  · obtain ⟨traffic, hbegin, rfl⟩ := Option.map_eq_some_iff.1 hs
    obtain ⟨store, hstep, rfl⟩ := Option.map_eq_some_iff.1 hbegin
    have hconcludes : (s.traffic.store.setStage s.updates.length .close .entering).Concludes _ s.updates.length :=
      Layered.concludes_begin h.logged.1.steady h.logged.1.opened hidle.operations
    have hnew := Layered.new_of_begin hstep
    simp only [Layered.step, hnew, Option.isSome_none, Bool.false_eq_true, ↓reduceIte, Option.some.injEq] at hstep
    subst hstep
    exact ⟨hidle.connections, rfl, rfl, rfl, rfl, rfl, hconcludes, .inl rfl⟩
  · cases hs

theorem Rests.step (h : Rests contents start s) (hidle : start.IsIdle) (hs : s.step label = some t) :
    Rests contents start t := by
  have hclosing : s.stage.isClosing := by
    rcases h.stage with hstage | ⟨_, _, hstage, -⟩ <;> rw [hstage] <;> rfl
  cases label with
  | receive | answer | cut | leave =>
      obtain ⟨c, hid, hs⟩ := Option.bind_eq_some_iff.1 hs
      simp [connectionStep, Serving.answer, Serving.cut, Serving.leave, h.connections _ c hid] at hs
  | tell id =>
      obtain ⟨c, hid, hs⟩ := Option.bind_eq_some_iff.1 hs
      simp only [connectionStep] at hs
      split at hs
      · cases hs
        refine { h with connections := fun j d hj => ?_ }
        rcases Dict.of_get?_put hj with ⟨rfl, rfl⟩ | ⟨-, hj⟩
        · exact h.connections id c hid
        · exact h.connections j d hj
      · cases hs
  | stop =>
      cases hs
      exact { h with }
  | closed =>
      simp only [Serving.step] at hs
      split at hs
      · rename_i n hstage
        split at hs
        · rename_i o result dumped hoperation
          cases hs
          obtain ⟨stage, hclose, -⟩ := h.concludes.last
          have hn : n = start.updates.length := by
            rcases h.stage with hsame | ⟨_, _, hstopped, -⟩
            · cases hstage.symm.trans hsame
              rfl
            · cases hstage.symm.trans hstopped
          subst hn
          cases hclose.symm.trans hoperation
          exact { h with stage := .inr ⟨result, dumped, rfl, hoperation⟩ }
        · cases hs
      · cases hs
  | traffic label =>
      simp only [Serving.step] at hs
      split at hs
      · rename_i hown
        obtain ⟨traffic, hstep, rfl⟩ := Option.map_eq_some_iff.1 hs
        obtain ⟨hworks, hstore⟩ := Traffic.layered_rest (h.works ▸ hidle.updates) hown hstep
        rcases hstore with hsame | ⟨inner, hinner, hlayer⟩
        · exact ⟨h.connections, hworks.trans h.works, h.answers, h.updates, hsame ▸ h.applied, hsame ▸ h.path,
            hsame ▸ h.concludes, hsame ▸ h.stage⟩
        · have hproceeds := Layered.proceeds_of_step hinner hlayer
          refine ⟨h.connections, hworks.trans h.works, h.answers, h.updates,
            (h.concludes.applied_proceeds hproceeds).trans h.applied,
            (Layered.ages_of_happens hproceeds.happens).path.trans h.path, h.concludes.proceeds hproceeds, ?_⟩
          obtain hstage | ⟨result, dumped, hstage, hclose⟩ := h.stage
          · exact .inl hstage
          · exact .inr ⟨result, dumped, hstage, hproceeds.answered hclose⟩
      · cases hs
  | _ =>
      simp only [Serving.step] at hs
      split at hs
      · rename_i hstage
        rw [hstage] at hclosing
        cases hclosing
      · cases hs

theorem Rests.published (h : Rests contents start s) (hclosed : s.stage = .stopped (.ok ())) :
    s.traffic.store.Published contents := by
  rcases h.stage with hclosing | ⟨result, dumped, hstopped, hclose⟩
  · cases hclosed.symm.trans hclosing
  · cases hclosed.symm.trans hstopped
    exact h.concludes.published hclose

/-! ## What survives -/

/-- What holds of a collector over a new store in memory on which a snapshot layer has been put, with any interval and
with or without what the file had. Connections come and go, bring requests and are cut off, the collector is asked to
stop, and its layer, the periodic task and the locks of its updates go on, in any order. If it then returns without an
error, no handler is running when its store begins to close. If the store closes without an error too, there is a log of
the updates that have changed it, in the order of their changes. In this log is every update that was answered with
success, unless it had no metrics at all; and whoever opens a layer on the file and restores from it gets what the store
held when it began to close, and that is all metrics of the log merged one after another. -/
theorem acknowledged_updates_survive {path : String} {interval : Span} {restore : Bool} {layer : Layer}
    {w w' : World} {ttl : Nat} {before after : List ServingStep}
    (hopen : Storage.openSnapshot ⟨path, interval, restore⟩ (.memory .fresh) w = (.ok (), .layered layer first, w'))
    (hs : stepwise step (fresh (.fresh (.ofFileText path) interval.isZero ⟨first, true⟩ w'.disk) ttl) before = some s)
    (hreturned : s.stage = .returned true) (ht : stepwise step s (.close :: after) = some t)
    (hclosed : t.stage = .stopped (.ok ())) :
    s.IsIdle ∧ ∃ log : List (Nat × Request),
      log.map (·.1) = t.traffic.store.applied.map (·.1) ∧
      (∀ n request, (n, request) ∈ log → ∃ r, t.updates[n]? = some r ∧ r.update? = some request) ∧
      (∀ n response, (n, response) ∈ t.answers → response.status = 200 → ∃ r request, t.updates[n]? = some r ∧
        r.update? = some request ∧ ((n, request) ∈ log ∨ request.metrics = [])) ∧
      ∀ (later : World) (interval : Span), later.disk = t.traffic.store.disk → ∃ due restored,
        Storage.openSnapshot ⟨path, interval, true⟩ (.memory .fresh) later
          = (.ok (), .layered ⟨path, interval, due, true⟩ restored, later) ∧
        restored.Same s.traffic.store.memory.contents ∧
        restored.Same (first.mergeAll (log.flatMap (·.2.metrics))).2 := by
  have hfirst := Storage.isWellFormed_of_openSnapshot hopen
  have htended := tended_of_stepwise hs (by rw [hreturned]; rfl)
  have hidle := htended.isIdle hreturned
  have hsteady := htended.logged.1.steady
  have hcontents := hsteady.contents (hsteady.opened htended.logged.1.opened)
  obtain ⟨log, hids, hsame, hknown, hanswered⟩ := htended.logged.accounts
  have hupdates : ∀ n request, (n, request) ∈ log → ∃ r, s.updates[n]? = some r ∧ r.update? = some request := by
    intro n request hin
    obtain ⟨stage, hstage⟩ := hknown _ hin
    exact htended.numbered n _ hstage
  obtain ⟨begun, hbegin, hrest⟩ := Option.bind_eq_some_iff.1 ht
  have hrests := stepwise_keeps hrest (htended.rests hidle hbegin) fun _ _ _ _ h hstep => h.step hidle hstep
  refine ⟨hidle, log, hrests.applied ▸ hids, hrests.updates ▸ hupdates, fun n response hin hstatus => ?_,
    fun later interval hdisk => ?_⟩
  · rw [hrests.answers] at hin
    obtain ⟨request, result, hwork, rfl⟩ := htended.answered _ hin
    obtain ⟨saved, rfl⟩ := Http.ok_of_respond hstatus
    obtain ⟨r, hr, hupdate⟩ := htended.numbered n _ hwork
    exact ⟨r, request, hrests.updates ▸ hr, hupdate, hanswered n request saved hwork⟩
  · have hformed : s.traffic.store.memory.contents.IsWellFormed := by
      refine (hfirst.mergeAll fun m hm => ?_).same hsame
      obtain ⟨⟨n, request⟩, hin, hm⟩ := List.mem_flatMap.1 hm
      obtain ⟨r, -, hupdate⟩ := hupdates n request hin
      exact Http.isWellFormed_of_update? hupdate m hm
    obtain ⟨hfile, hparent⟩ : t.traffic.store.Published s.traffic.store.memory.contents :=
      hcontents ▸ hrests.published hclosed
    obtain ⟨_, ⟨ms, hms, rfl⟩, hfile⟩ := hfile
    rw [hrests.path, htended.path, ← hdisk] at hfile hparent
    have hlisted : ∀ m ∈ ms, m.isWellFormed := fun m hm => hformed m (hms.subset hm)
    obtain ⟨due, hrestored⟩ := Storage.openSnapshot_of_file hlisted hfile hparent interval
    have hkept : (Contents.ofMetrics ms).Same s.traffic.store.memory.contents := by
      intro name
      rw [Contents.ofMetrics, Contents.get?_saveAll_metrics hms, Dict.get?_empty, Option.or_none]
    exact ⟨due, _, hrestored, hkept, hkept.trans hsame⟩

/-- A request to count two hits. -/
def hit : Http.Request := Http.post "/update/" (Payload.encode ⟨"hits", "counter", some 2, none⟩)

theorem hit_update? : hit.update? = some (.save (.counter "hits" 2)) := by decide +kernel

/-- A collector with a snapshot now and then, of nothing so far. -/
def minutely : Serving := fresh (.fresh (.ofFileText "m.json") false ⟨Dict.empty, true⟩ ⟨Dict.empty⟩) 60000

/-- Two connections have brought a hit each. -/
def hitTwice : Serving :=
  { minutely with
    connections := (Dict.empty.put 0 ⟨.updating 0, false⟩).put 1 ⟨.updating 1, false⟩
    updates := [hit, hit]
    traffic := (minutely.traffic.setStage 0 (.save (.counter "hits" 2)) (.locking ["hits"])).setStage 1
      (.save (.counter "hits" 2)) (.locking ["hits"]) }

theorem hitTwice_eq :
    stepwise step minutely [.connect 0, .connect 1, .receive 0 hit, .receive 1 hit] = some hitTwice := by
  have hnames : Request.names (.save (.counter "hits" 2)) = ["hits"] := by
    simp [Request.names, Request.metrics, Metric.counter, List.eraseDups_cons]
  simp [stepwise, Serving.step, connectionStep, receive, hit_update?, Traffic.layered, Traffic.step, hnames, hitTwice,
    minutely, fresh, setConnection, Traffic.fresh, Traffic.setStage, Connection.fresh, ServingStage.isServing, Dict.put,
    Dict.place, Dict.empty, Dict.get?, Dict.find]

def updateStep (n : Nat) : ServingStep := .traffic (.work (.advance n))

def layerSteps (labels : List LayeredStep) : List ServingStep := labels.map fun label => .traffic (.layer label)

/-- The first hit is saved, while the second waits for its lock and is cut off. The collector is asked to stop, and the
first connection ends with its answer. -/
def servedOnce : List ServingStep :=
  List.flatten [List.replicate 4 (updateStep 0), [updateStep 1, .cut 1], layerSteps (List.replicate 3 (.advance 0)),
    List.replicate 3 (updateStep 0), [.stop, .tell 0, .stopAccepting, updateStep 1, .leave 1, .answer 0, .finish]]

/-- The periodic task stops, and the last snapshot is made before the store below is closed. -/
def closedAfter : List ServingStep :=
  List.flatten [layerSteps [.advance 2, .stopFlusher, .advance 2],
    layerSteps [.dump 2 .advance, .dump 2 .advance, .dump 2 (.list ["hits"])],
    layerSteps (List.replicate 4 (.dump 2 .produce)), layerSteps (List.replicate 8 (.dump 2 .advance)),
    layerSteps (List.replicate 3 (.advance 2)), [.closed]]

theorem acknowledged_updates_survive_cut : ∃ s t,
    stepwise step minutely (.connect 0 :: .connect 1 :: .receive 0 hit :: .receive 1 hit :: servedOnce) = some s ∧
    s.stage = .returned true ∧ s.IsIdle ∧
    stepwise step s (.close :: closedAfter) = some t ∧ t.stage = .stopped (.ok ()) ∧
    t.answers.map (fun e => (e.1, e.2.status)) = [(0, 200)] ∧
    ∃ due restored, Storage.openSnapshot ⟨"m.json", ⟨0⟩, true⟩ (.memory .fresh) ⟨t.traffic.store.disk, [], 0, []⟩
        = (.ok (), .layered ⟨"m.json", ⟨0⟩, due, true⟩ restored, ⟨t.traffic.store.disk, [], 0, []⟩) ∧
      restored.get? "hits" = some (.counter 2) := by
  have hopen : Storage.openSnapshot ⟨"m.json", ⟨60000000000⟩, false⟩ (.memory .fresh) ⟨⟨Dict.empty⟩, [], 0, []⟩
      = (.ok (), .layered ⟨"m.json", ⟨60000000000⟩, some 60000, true⟩ Dict.empty, ⟨⟨Dict.empty⟩, [], 0, []⟩) := rfl
  have hserved : (stepwise step hitTwice servedOnce).map (·.stage.hasReturned) = some true := by
    decide +kernel
  have hclosed : ((stepwise step hitTwice servedOnce).bind (stepwise step · (.close :: closedAfter))).map (fun t =>
      (t.stage.hasStopped, t.traffic.store.applied.map (·.1), t.answers.map fun e => (e.1, e.2.status),
        t.updates[0]?.bind (·.update?))) = some (true, [0], [(0, 200)], some (.save (.counter "hits" 2))) := by
    decide +kernel
  obtain ⟨s, hs, hreturned⟩ := Option.map_eq_some_iff.1 hserved
  rw [hs, Option.bind_some] at hclosed
  obtain ⟨t, ht, hend⟩ := Option.map_eq_some_iff.1 hclosed
  simp only [Prod.mk.injEq] at hend
  obtain ⟨hstopped, happlied, hanswers, hupdate⟩ := hend
  have hreturned : s.stage = .returned true := ServingStage.eq_returned hreturned
  have hstopped : t.stage = .stopped (.ok ()) := ServingStage.eq_stopped hstopped
  have hrun := stepwise_trans hitTwice_eq hs
  obtain ⟨hidle, log, hids, hlogged, -, hrestores⟩ :=
    acknowledged_updates_survive hopen hrun hreturned ht hstopped
  obtain ⟨due, restored, hrestored, -, hsame⟩ := hrestores ⟨t.traffic.store.disk, [], 0, []⟩ ⟨0⟩ rfl
  refine ⟨s, t, hrun, hreturned, hidle, ht, hstopped, hanswers, due, restored, hrestored, ?_⟩
  rw [happlied] at hids
  obtain ⟨⟨n, request⟩, rfl, hn⟩ := List.map_eq_singleton_iff.1 hids
  obtain rfl : n = 0 := hn
  obtain ⟨r, hr, hrequest⟩ := hlogged 0 request List.mem_cons_self
  rw [hr, Option.bind_some, hrequest] at hupdate
  cases hupdate
  rw [hsame "hits"]
  rfl

end Serving

end PushMetrics.Collector
