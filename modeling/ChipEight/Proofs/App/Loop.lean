import ChipEight.Proofs.App.Whereabouts
/-!
The loop of an application as rounds: each takes what the desktop delivers, and then runs a frame
unless the application is to exit.

`loop_eq` says that the loop is one occurrence after the other. What a round does is known from
`pumped_eq` and `undergoAll_occurrences`, and how rounds follow each other from `start_of_rounds` and
`rounds_end`.
-/

namespace ChipEight

namespace App

variable {d : Desktop}

theorem take_eq (hworks : d.Works) (app : App) (deliveries : List Delivery) :
    let reached := app.undergoAll d (deliveries.map .delivery)
    app.take d deliveries =
      { result := .ok (), app := reached.app, desktop := reached.desktop, log := reached.log } := by
  induction deliveries generalizing app d with
  | nil => rfl
  | cons delivery rest ih =>
      have hrest := ih (hworks.undergo app (.delivery delivery)) (app.undergo d (.delivery delivery)).app
      cases delivery with
      | event e => exact congrArg (fun t => { t with log := (app.handle d e).log ++ t.log }) hrest
      | exitStatus status => exact hrest
      | resumed =>
          have hresult : (app.resume d).result = .ok () := by
            rcases app with ⟨settings, stage⟩
            cases stage with
            | opened | lost => rfl
            | pending m => simp only [resume, init_pending settings m hworks]
          simp only [take, hresult]
          exact congrArg (fun t => { t with log := (app.resume d).log ++ t.log }) hrest

end App

/-- One time around the loop: where it starts from, and what the desktop does when it is asked. -/
structure Round where
  app : App
  desktop : Desktop
  batch : Batch

namespace Round

def pumped (r : Round) : Turn (Option Int) :=
  r.app.pump r.desktop r.batch

def framed (r : Round) : Turn Bool :=
  r.pumped.app.frame r.pumped.desktop

/-- The status that the loop ends with, if it ends with this round. -/
def status? (r : Round) : Option Int :=
  r.pumped.result.or (if r.framed.result then none else some 1)

/-- What happens until the frame. -/
def pumping (r : Round) : List Occurrence :=
  .pump :: r.batch.deliveries.map .delivery

def occurrences (r : Round) : List Occurrence :=
  r.pumping ++ if r.pumped.result = none then [.frame] else []

theorem pumped_eq {r : Round} (hworks : r.desktop.Works) :
    let reached := r.app.undergoAll r.desktop r.pumping
    r.pumped =
      { result := r.batch.exit?
        app := reached.app
        desktop := reached.desktop
        log := reached.log } := by
  simp only [pumped, App.pump, App.take_eq (hworks.record .pump)]
  rfl

theorem occurrences_of_exit {r : Round} {status : Int} (h : r.pumped.result = some status) :
    r.occurrences = r.pumping := by
  rw [occurrences, h]
  exact List.append_nil _

theorem occurrences_of_continue {r : Round} (h : r.pumped.result = none) :
    r.occurrences = r.pumping ++ [.frame] := by
  rw [occurrences, if_pos h]

theorem undergoAll_occurrences {r : Round} (hworks : r.desktop.Works)
    (h : r.pumped.result = none) :
    let reached := r.app.undergoAll r.desktop r.occurrences
    reached.app = r.framed.app ∧ reached.desktop = r.framed.desktop ∧
      reached.log = r.pumped.log ++ r.framed.log := by
  rw [occurrences_of_continue h, App.undergoAll_concat]
  simp only [framed, pumped_eq hworks]
  exact ⟨rfl, rfl, rfl⟩

theorem works_framed {r : Round} (hworks : r.desktop.Works) : r.framed.desktop.Works := by
  have hpumped : r.pumped.desktop.Works := by
    rw [pumped_eq hworks]
    exact hworks.undergoAll r.app r.pumping
  exact hpumped.undergo r.pumped.app .frame

theorem frame_not_mem_pumping (r : Round) : .frame ∉ r.pumping := by
  simp [pumping]

theorem status?_eq_some_iff {r : Round} {status : Int} :
    r.status? = some status ↔
      r.pumped.result = some status ∨
        r.pumped.result = none ∧ r.framed.result = false ∧ status = 1 := by
  unfold status?
  cases r.pumped.result with
  | some s => simp
  | none =>
      cases r.framed.result with
      | true => simp
      | false => simp [eq_comm]

theorem status?_eq_none_iff {r : Round} :
    r.status? = none ↔ r.pumped.result = none ∧ r.framed.result = true := by
  unfold status?
  cases r.pumped.result with
  | some s => simp
  | none =>
      cases r.framed.result with
      | true => simp
      | false => simp

end Round

namespace App

def rounds (app : App) (desktop : Desktop) : List Batch → List Round
  | [] => []
  | batch :: rest =>
    let r : Round := { app := app, desktop := desktop, batch := batch }
    r :: if r.status? = none then r.framed.app.rounds r.framed.desktop rest else []

def course (app : App) (desktop : Desktop) (script : List Batch) : List Occurrence :=
  (app.rounds desktop script).flatMap Round.occurrences

section Rounds

variable {r : Round} {rest : List Batch}

theorem loop_round (r : Round) (rest : List Batch) :
    r.app.loop r.desktop (r.batch :: rest) =
      match r.pumped.result with
      | some status => { r.pumped with result := some status }
      | none =>
        if r.framed.result then
          let others := r.framed.app.loop r.framed.desktop rest
          { others with log := r.pumped.log ++ r.framed.log ++ others.log }
        else
          { r.framed with result := some 1, log := r.pumped.log ++ r.framed.log } :=
  rfl

theorem rounds_of_end {status : Int} (h : r.status? = some status) :
    r.app.rounds r.desktop (r.batch :: rest) = [r] := by
  rw [rounds, if_neg]
  rw [h]
  simp

theorem rounds_of_continue (h : r.status? = none) :
    r.app.rounds r.desktop (r.batch :: rest) =
      r :: r.framed.app.rounds r.framed.desktop rest := by
  rw [rounds, if_pos h]

theorem course_of_end {status : Int} (h : r.status? = some status) :
    r.app.course r.desktop (r.batch :: rest) = r.occurrences := by
  rw [course, rounds_of_end h, List.flatMap_singleton]

theorem course_of_continue (h : r.status? = none) :
    r.app.course r.desktop (r.batch :: rest) =
      r.occurrences ++ r.framed.app.course r.framed.desktop rest := by
  rw [course, rounds_of_continue h, List.flatMap_cons]
  rfl

theorem loop_of_end (hworks : r.desktop.Works) {status : Int} (h : r.status? = some status) :
    let reached := r.app.undergoAll r.desktop r.occurrences
    r.app.loop r.desktop (r.batch :: rest) =
      { result := some status
        app := reached.app
        desktop := reached.desktop
        log := reached.log } := by
  rw [loop_round]
  rcases Round.status?_eq_some_iff.mp h with hresult | ⟨hresult, hframed, rfl⟩
  · rw [hresult, Round.occurrences_of_exit hresult, Round.pumped_eq hworks]
  · obtain ⟨happ, hdesktop, hlog⟩ := Round.undergoAll_occurrences hworks hresult
    simp only [hresult, hframed, happ, hdesktop, hlog]
    rfl

theorem loop_of_continue (hworks : r.desktop.Works) (h : r.status? = none) :
    let reached := r.app.undergoAll r.desktop r.occurrences
    let others := reached.app.loop reached.desktop rest
    r.app.loop r.desktop (r.batch :: rest) =
      { others with log := reached.log ++ others.log } := by
  obtain ⟨hresult, hframed⟩ := Round.status?_eq_none_iff.mp h
  obtain ⟨happ, hdesktop, hlog⟩ := Round.undergoAll_occurrences hworks hresult
  simp only [loop_round, hresult, hframed, happ, hdesktop, hlog]
  rfl

end Rounds

theorem loop_eq {d : Desktop} (hworks : d.Works) (app : App) (script : List Batch) :
    let reached := app.undergoAll d (app.course d script)
    app.loop d script =
      { result := (app.rounds d script).getLast?.bind Round.status?
        app := reached.app
        desktop := reached.desktop
        log := reached.log } := by
  induction script generalizing app d with
  | nil => rfl
  | cons batch rest ih =>
      obtain ⟨r, rfl, rfl, rfl⟩ : ∃ r : Round,
          r.app = app ∧ r.desktop = d ∧ r.batch = batch :=
        ⟨⟨app, d, batch⟩, rfl, rfl, rfl⟩
      cases hstatus : r.status? with
      | some status =>
          rw [loop_of_end hworks hstatus, course_of_end hstatus, rounds_of_end hstatus]
          rw [List.getLast?_singleton, Option.bind_some, hstatus]
      | none =>
          have hrest := ih (Round.works_framed hworks) r.framed.app
          obtain ⟨hresult, -⟩ := Round.status?_eq_none_iff.mp hstatus
          obtain ⟨happ, hdesktop, -⟩ := Round.undergoAll_occurrences hworks hresult
          rw [loop_of_continue hworks hstatus, course_of_continue hstatus,
            rounds_of_continue hstatus]
          simp only [undergoAll_append, happ, hdesktop, hrest, List.getLast?_cons]
          cases (r.framed.app.rounds r.framed.desktop rest).getLast? with
          | none => simp [hstatus]
          | some last => simp

section Script

variable {app : App} {d : Desktop} {script : List Batch}

theorem batch_rounds (app : App) (d : Desktop) (script : List Batch) :
    (app.rounds d script).map Round.batch <+: script := by
  induction script generalizing app d with
  | nil => exact List.nil_prefix
  | cons batch rest ih =>
      rw [rounds, List.map_cons, List.cons_prefix_cons]
      refine ⟨rfl, ?_⟩
      split
      · exact ih _ _
      · exact List.nil_prefix

theorem start_of_rounds (hworks : d.Works) {earlier later : List Round} {r : Round}
    (h : app.rounds d script = earlier ++ r :: later) :
    r.app = (app.undergoAll d (earlier.flatMap Round.occurrences)).app ∧
      r.desktop = (app.undergoAll d (earlier.flatMap Round.occurrences)).desktop := by
  induction script generalizing app d earlier with
  | nil => simp [rounds] at h
  | cons batch rest ih =>
      rw [rounds] at h
      cases earlier with
      | nil =>
          cases (List.cons.inj h).1
          exact ⟨rfl, rfl⟩
      | cons first earlier =>
          obtain ⟨rfl, hrest⟩ := List.cons.inj h
          split at hrest
          · next hstatus =>
              obtain ⟨hresult, -⟩ := Round.status?_eq_none_iff.mp hstatus
              obtain ⟨happ, hdesktop, -⟩ := Round.undergoAll_occurrences hworks hresult
              rw [List.flatMap_cons, undergoAll_append]
              simp only [happ, hdesktop]
              exact ih (Round.works_framed hworks) hrest
          · simp at hrest

theorem works_of_mem_rounds (hworks : d.Works) {r : Round} (hr : r ∈ app.rounds d script) :
    r.desktop.Works := by
  obtain ⟨earlier, later, hrounds⟩ := List.append_of_mem hr
  rw [(start_of_rounds hworks hrounds).2]
  exact hworks.undergoAll app _

theorem pumped_of_mem_rounds (hworks : d.Works) {r : Round} (hr : r ∈ app.rounds d script) :
    r.pumped.result = r.batch.exit? := by
  rw [Round.pumped_eq (works_of_mem_rounds hworks hr)]

/-- Either the script runs out while the rounds go on, or all but the last round go on and the last one
ends the loop. -/
theorem rounds_end (app : App) (d : Desktop) (script : List Batch) :
    ((app.rounds d script).map Round.batch = script ∧
        ∀ r ∈ app.rounds d script, r.status? = none) ∨
      ∃ earlier last status, app.rounds d script = earlier ++ [last] ∧
        (∀ r ∈ earlier, r.status? = none) ∧ last.status? = some status := by
  induction script generalizing app d with
  | nil => exact .inl ⟨rfl, by simp [rounds]⟩
  | cons batch rest ih =>
      obtain ⟨r, rfl, rfl, rfl⟩ : ∃ r : Round,
          r.app = app ∧ r.desktop = d ∧ r.batch = batch :=
        ⟨⟨app, d, batch⟩, rfl, rfl, rfl⟩
      cases hstatus : r.status? with
      | some status =>
          rw [rounds_of_end hstatus]
          exact .inr ⟨[], r, status, rfl, by simp, hstatus⟩
      | none =>
          rw [rounds_of_continue hstatus]
          rcases ih r.framed.app r.framed.desktop with
            ⟨hbatches, hnone⟩ | ⟨earlier, last, status, hrounds, hearlier, hlast⟩
          · refine .inl ⟨?_, List.forall_mem_cons.mpr ⟨hstatus, hnone⟩⟩
            rw [List.map_cons, hbatches]
          · refine .inr ⟨r :: earlier, last, status, ?_, ?_, hlast⟩
            · rw [hrounds, List.cons_append]
            · exact List.forall_mem_cons.mpr ⟨hstatus, hearlier⟩

end Script

end App

def Operation.cycles : Operation → Bool
  | .cycle => true
  | _ => false

namespace App

theorem countP_cycles_of_no_frame {occurrences : List Occurrence} (h : .frame ∉ occurrences)
    (app : App) (d : Desktop) :
    (app.operationsAll d occurrences).countP Operation.cycles = 0 := by
  induction occurrences generalizing app d with
  | nil => rfl
  | cons o rest ih =>
      rw [List.mem_cons, not_or] at h
      rw [operationsAll, List.countP_append, ih h.2, Nat.add_zero, List.countP_eq_zero]
      intro operation hmem hcycles
      cases operation with
      | cycle => exact h.1 (cycle_mem_operations_iff.mp hmem).1.symm
      | _ => cases hcycles

theorem countP_cycles_frame (app : App) :
    (app.operations .frame).countP Operation.cycles = if app.window?.isSome then 1 else 0 := by
  rcases app with ⟨settings, stage⟩
  cases stage with
  | pending | lost => rfl
  | opened w =>
      simp only [operations, window?]
      split <;> rfl

end App

theorem Round.countP_cycles {r : Round} (hworks : r.desktop.Works) :
    (r.app.operationsAll r.desktop r.occurrences).countP Operation.cycles =
      if r.pumped.result = none ∧ r.pumped.app.window?.isSome then 1 else 0 := by
  have hpumping := App.countP_cycles_of_no_frame r.frame_not_mem_pumping r.app r.desktop
  cases hresult : r.pumped.result with
  | some status => simp [occurrences_of_exit hresult, hpumping]
  | none =>
      have happ : (r.app.undergoAll r.desktop r.pumping).app = r.pumped.app := by
        rw [pumped_eq hworks]
      rw [occurrences_of_continue hresult, App.operationsAll_concat, List.countP_append, hpumping,
        App.countP_cycles_frame, happ]
      simp

end ChipEight
