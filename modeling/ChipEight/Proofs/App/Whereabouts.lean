import ChipEight.Proofs.App.Occurrences
/-!
Where the machine of an application is, and what happens to it.

`exists_undergo_opened` says which operations on the machine an occurrence amounts to, and
`undergoAll_initial` where the machine is after any number of them; `opened_induction` is the induction
over what happens once the window is open.
-/

namespace ChipEight

namespace App

/-- The operations on its machine that an application performs at an occurrence. -/
def operations (app : App) : Occurrence → List Operation
  | .delivery (.event (.key e)) =>
    match app.stage with
    | .opened _ => e.operations app.settings.layout
    | _ => []
  | .frame =>
    match app.stage with
    | .opened w => if w.machine.cycle.result.isOk then [.cycle, .takeDirty] else [.cycle]
    | _ => []
  | _ => []

/-- The operations that it performs at occurrences one after the other. -/
def operationsAll (app : App) (desktop : Desktop) : List Occurrence → List Operation
  | [] => []
  | occurrence :: rest =>
    let first := app.undergo desktop occurrence
    app.operations occurrence ++ first.app.operationsAll first.desktop rest

theorem operationsAll_append (app : App) (d : Desktop) (before after : List Occurrence) :
    app.operationsAll d (before ++ after) =
      app.operationsAll d before ++
        (app.undergoAll d before).app.operationsAll (app.undergoAll d before).desktop after := by
  induction before generalizing app d with
  | nil => rfl
  | cons occurrence before ih =>
      simp only [List.cons_append, operationsAll, undergoAll, ih, List.append_assoc]

theorem operationsAll_concat (app : App) (d : Desktop) (occurrences : List Occurrence)
    (o : Occurrence) :
    app.operationsAll d (occurrences ++ [o]) =
      app.operationsAll d occurrences ++ (app.undergoAll d occurrences).app.operations o := by
  simp only [operationsAll_append, operationsAll, List.append_nil]

theorem cycle_not_mem_operations_key (e : KeyEvent) (layout : Layout) :
    Operation.cycle ∉ e.operations layout := by
  unfold KeyEvent.operations
  cases e.press? layout <;> cases e.release? layout <;> simp

theorem machine_performAll_of_ne_frame {o : Occurrence} (ho : o ≠ .frame) (settings : AppSettings)
    (w : OpenWindow) :
    (w.machine.performAll (operations ⟨settings, .opened w⟩ o)).machine =
      { w.machine with
        keypad :=
          w.machine.keypad.change (o.press? settings.layout) (o.release? settings.layout) } := by
  cases o with
  | pump => rfl
  | frame => exact absurd rfl ho
  | delivery delivery =>
      cases delivery with
      | resumed | exitStatus => rfl
      | event e =>
          cases e with
          | close | redraw | other => rfl
          | key e => exact w.machine.performAll_keys settings.layout e

theorem cycle_mem_operations_iff {app : App} {o : Occurrence} :
    .cycle ∈ app.operations o ↔ o = .frame ∧ app.window?.isSome := by
  rcases app with ⟨settings, stage⟩
  cases o with
  | pump => simp [operations]
  | frame =>
      cases stage with
      | pending | lost => simp [operations, window?]
      | opened w =>
          simp only [operations, window?]
          split <;> simp
  | delivery delivery =>
      cases delivery with
      | resumed | exitStatus => simp [operations]
      | event e =>
          cases e with
          | close | redraw | other => simp [operations]
          | key e =>
              cases stage with
              | pending | lost => simp [operations]
              | opened w => simp [operations, cycle_not_mem_operations_key]

theorem operations_of_no_window {app : App} (hwindow : app.window? = none) (o : Occurrence) :
    app.operations o = [] := by
  rcases app with ⟨settings, stage⟩
  cases stage with
  | opened w => cases hwindow
  | pending | lost =>
      cases o with
      | pump | frame => rfl
      | delivery delivery =>
          cases delivery with
          | resumed | exitStatus => rfl
          | event e => cases e <;> rfl

theorem app_undergo_of_no_window {app : App} {o : Occurrence} (hwindow : app.window? = none)
    (ho : o ≠ .delivery .resumed) (d : Desktop) : (app.undergo d o).app = app := by
  rcases app with ⟨settings, stage⟩
  cases stage with
  | opened w => cases hwindow
  | pending | lost =>
      cases o with
      | pump | frame => rfl
      | delivery delivery =>
          cases delivery with
          | resumed => exact absurd rfl ho
          | exitStatus status => rfl
          | event e =>
              cases e with
              | close | redraw | other => rfl
              | key e =>
                  show (hear _ d e).app = _
                  unfold hear
                  split
                  · rfl
                  · rfl
                  · next hstage => cases hstage
                  · rfl

theorem exists_undergo_opened (settings : AppSettings) (w : OpenWindow) (d : Desktop)
    (o : Occurrence) :
    ∃ w', (undergo ⟨settings, .opened w⟩ d o).app = ⟨settings, .opened w'⟩ ∧
      w'.machine = (w.machine.performAll (operations ⟨settings, .opened w⟩ o)).machine ∧
      (o ≠ .frame → w'.beeping = w.beeping) := by
  cases o with
  | pump => exact ⟨w, rfl, rfl, fun _ => rfl⟩
  | delivery delivery =>
      cases delivery with
      | resumed => exact ⟨w, rfl, rfl, fun _ => rfl⟩
      | exitStatus status => exact ⟨w, rfl, rfl, fun _ => rfl⟩
      | event e =>
          cases e with
          | close | other => exact ⟨w, rfl, rfl, fun _ => rfl⟩
          | redraw => exact ⟨_, app_redraw_opened settings w d, rfl, fun _ => rfl⟩
          | key e =>
              show ∃ w', (hear ⟨settings, .opened w⟩ d e).app = _ ∧ _
              rw [hear_opened]
              exact ⟨_, rfl, rfl, fun _ => rfl⟩
  | frame =>
      simp only [undergo, operations]
      cases hcycle : w.machine.cycle.result with
      | ok =>
          rw [frame_opened_of_ok settings d hcycle]
          exact ⟨_, rfl, rfl, fun h => absurd rfl h⟩
      | error fault =>
          rw [frame_opened_of_error settings d hcycle]
          exact ⟨_, rfl, rfl, fun h => absurd rfl h⟩

theorem window_undergo {settings : AppSettings} {w w' : OpenWindow} {d : Desktop} {o : Occurrence}
    (hopened : (undergo ⟨settings, .opened w⟩ d o).app = ⟨settings, .opened w'⟩) :
    w'.machine = (w.machine.performAll (operations ⟨settings, .opened w⟩ o)).machine ∧
      (o ≠ .frame → w'.beeping = w.beeping) := by
  obtain ⟨w'', hopened', hwindow⟩ := exists_undergo_opened settings w d o
  rw [hopened] at hopened'
  cases hopened'
  exact hwindow

theorem undergo_lost (settings : AppSettings) (d : Desktop) (o : Occurrence) :
    (undergo ⟨settings, .lost⟩ d o).app = ⟨settings, .lost⟩ := by
  by_cases ho : o = .delivery .resumed
  · rw [ho]
    rfl
  · exact app_undergo_of_no_window rfl ho d

theorem undergo_initial_opened {settings : AppSettings} {m : Machine} {d : Desktop}
    {o : Occurrence} {w : OpenWindow}
    (hopened : ((initial settings m).undergo d o).app = ⟨settings, .opened w⟩) :
    o = .delivery .resumed ∧ w.machine = m ∧ w.beeping = false := by
  by_cases ho : o = .delivery .resumed
  · subst ho
    change ((initial settings m).resume d).app = _ at hopened
    rw [app_resume] at hopened
    rcases app_init_pending settings m d with hinit | hlost
    · cases hinit.symm.trans hopened
      exact ⟨rfl, rfl, rfl⟩
    · cases hlost.symm.trans hopened
  · rw [app_undergo_of_no_window rfl ho] at hopened
    cases hopened

/-- An application waits with its machine until it may open the window; then it opens the window and
keeps it, or the desktop has failed. -/
theorem undergoAll_initial (settings : AppSettings) (m : Machine) (d : Desktop)
    (occurrences : List Occurrence) :
    let app := initial settings m
    let reached := app.undergoAll d occurrences
    let operations := app.operationsAll d occurrences
    (reached.app = app ∧ operations = [] ∧ .delivery .resumed ∉ occurrences) ∨
      (∃ w, reached.app = ⟨settings, .opened w⟩ ∧ w.machine = (m.performAll operations).machine ∧
        .delivery .resumed ∈ occurrences) ∨
      (reached.app = ⟨settings, .lost⟩ ∧ ¬ d.Works) := by
  intro app reached operations
  induction occurrences using List.reverseRecOn with
  | nil => exact .inl ⟨rfl, rfl, by simp⟩
  | append_singleton occurrences o ih =>
      simp only [reached, operations, undergoAll_concat, operationsAll_concat]
      -- The last occurrence finds the machine waiting, in the window, or gone.
      rcases ih with ⟨happ, hnone, hnever⟩ | ⟨w, happ, hmachine, honce⟩ | ⟨happ, hfails⟩
      · rw [happ, hnone]
        by_cases ho : o = .delivery .resumed
        · have hinit : (app.undergo (app.undergoAll d occurrences).desktop o).app =
              (app.init (app.undergoAll d occurrences).desktop).app := by
            rw [ho]
            exact app_resume app _
          rw [hinit]
          rcases app_init_pending settings m (app.undergoAll d occurrences).desktop with
            hopened | hlost
          · refine .inr (.inl ⟨_, hopened, ?_, ?_⟩)
            · rw [operations_of_no_window rfl]
              rfl
            · simp [ho]
          · refine .inr (.inr ⟨hlost, fun hworks => ?_⟩)
            have hopened := init_pending settings m (hworks.undergoAll app occurrences)
            rw [hopened] at hlost
            cases hlost
        · refine .inl ⟨app_undergo_of_no_window rfl ho _, ?_, ?_⟩
          · rw [operations_of_no_window rfl, List.append_nil]
          · simpa [hnever] using Ne.symm ho
      · rw [happ]
        obtain ⟨w', happ', hmachine', -⟩ := exists_undergo_opened settings w
          (app.undergoAll d occurrences).desktop o
        refine .inr (.inl ⟨w', happ', ?_, List.mem_append_left _ honce⟩)
        rw [hmachine', hmachine, Machine.machine_performAll_append]
      · rw [happ]
        exact .inr (.inr ⟨undergo_lost settings _ o, hfails⟩)

section Reached

variable {settings : AppSettings} {m : Machine} {d : Desktop} {occurrences : List Occurrence}

/-- What holds when the window opens and is preserved by every occurrence holds of the window ever
after. -/
theorem opened_induction {P : List Occurrence → OpenWindow → Prop}
    (hopens : ∀ occurrences w,
      ((initial settings m).undergoAll d occurrences).app = initial settings m →
      .delivery .resumed ∉ occurrences →
      ((initial settings m).undergo ((initial settings m).undergoAll d occurrences).desktop
        (.delivery .resumed)).app = ⟨settings, .opened w⟩ →
      P (occurrences ++ [.delivery .resumed]) w)
    (hstep : ∀ occurrences o w w',
      ((initial settings m).undergoAll d occurrences).app = ⟨settings, .opened w⟩ →
      P occurrences w →
      (undergo ⟨settings, .opened w⟩ ((initial settings m).undergoAll d occurrences).desktop o).app =
        ⟨settings, .opened w'⟩ →
      P (occurrences ++ [o]) w')
    {w : OpenWindow}
    (hopened : ((initial settings m).undergoAll d occurrences).app = ⟨settings, .opened w⟩) :
    P occurrences w := by
  induction occurrences using List.reverseRecOn generalizing w with
  | nil => cases hopened
  | append_singleton occurrences o ih =>
      simp only [undergoAll_concat] at hopened
      rcases undergoAll_initial settings m d occurrences with
        ⟨happ, -, hnever⟩ | ⟨earlier, happ, -⟩ | ⟨happ, -⟩
      · rw [happ] at hopened
        obtain ⟨rfl, -⟩ := undergo_initial_opened hopened
        exact hopens occurrences w happ hnever hopened
      · rw [happ] at hopened
        exact hstep occurrences o earlier w happ (ih happ) hopened
      · rw [happ, undergo_lost] at hopened
        cases hopened

theorem app_of_window? {w : OpenWindow}
    (h : ((initial settings m).undergoAll d occurrences).app.window? = some w) :
    ((initial settings m).undergoAll d occurrences).app = ⟨settings, .opened w⟩ := by
  rcases undergoAll_initial settings m d occurrences with
    ⟨happ, -⟩ | ⟨w', happ, -⟩ | ⟨happ, -⟩
  · rw [happ] at h
    cases h
  · rw [happ] at h ⊢
    cases h
    rfl
  · rw [happ] at h
    cases h

theorem app_of_pending? {waiting : Machine}
    (h : ((initial settings m).undergoAll d occurrences).app.pending? = some waiting) :
    ((initial settings m).undergoAll d occurrences).app = initial settings m ∧ waiting = m := by
  rcases undergoAll_initial settings m d occurrences with
    ⟨happ, -⟩ | ⟨w, happ, -⟩ | ⟨happ, -⟩
  · rw [happ] at h
    cases h
    exact ⟨happ, rfl⟩
  · rw [happ] at h
    cases h
  · rw [happ] at h
    cases h

end Reached

end App

end ChipEight
