import JobShell.Proofs.Contract

/-!
Printing text. Whatever comes of it, the descriptor is written to and nothing else is asked for,
but the process is aborted once the system does not write the rest.
-/
namespace JobShell

open Program

variable {only : Request → Prop} {fd : Fd} {data : ByteArray} {text : String} {t : List Event}

theorem asks_writeText (h : ∀ data, only (.call (.write fd data))) (text : String) :
    Asks only (writeText fd text) :=
  Asks.bind (asks_ask.mpr (h _)) fun _ => asks_done ()

/-- The system writes everything at once. -/
def written (fd : Fd) (data : ByteArray) : List Event :=
  if data.isEmpty then [] else [.call (.write fd data) (.ok data.size)]

theorem runs_written (fd : Fd) (data : ByteArray) :
    Runs (writeAll fd data) (written fd data) true := by
  refine runs_iterate.mpr ?_
  have hdone {data : ByteArray} (h : data.isEmpty = true) :
      Rounds (writeRound fd) data [] true :=
    .last (by simp [writeRound, h])
  by_cases h : data.isEmpty = true
  · simpa [written, h] using hdone h
  · have hsize : data.size ≠ 0 := by simpa [ByteArray.isEmpty] using h
    have hround : Runs (writeRound fd data) [.call (.write fd data) (.ok data.size)]
        (.inl (data.extract data.size data.size)) := by
      simp only [writeRound, h]
      refine runs_bind.mpr ⟨_, [], _, rfl, runs_ask.mpr rfl, ?_⟩
      simp [hsize]
    have hrest : (data.extract data.size data.size).isEmpty = true := by
      simp [ByteArray.isEmpty]
    simpa [written, h] using Rounds.round hround (hdone hrest)

theorem canEnd_writeAll (fd : Fd) (data : ByteArray) : CanEnd (writeAll fd data) := by
  refine ⟨_, _, runs_written fd data, fun e he => ?_⟩
  by_cases h : data.isEmpty = true
  · simp [written, h] at he
  · have hsize : data.size ≠ 0 := by simpa [ByteArray.isEmpty] using h
    obtain rfl : e = .call (.write fd data) (.ok data.size) := by simpa [written, h] using he
    simp [Event.Refused, hsize]

theorem stays_writeAll (h : ∀ data, only (.call (.write fd data))) (data : ByteArray) :
    Stays only (writeAll fd data) := by
  refine stays_iterate (fun rest => ?_) (canEnd_writeAll fd) data
  unfold writeRound
  split
  · exact stays_done _
  · refine (stays_ask (h rest)).bind fun answer => ?_
    cases answer with
    | ok count =>
      dsimp only
      split <;> exact stays_done _
    | error e =>
      dsimp only
      split <;> exact stays_done _

/-- The event writes to the descriptor. -/
def Event.WritesTo (fd : Fd) (e : Event) : Prop := ∃ data answer, e = .call (.write fd data) answer

theorem writes_of_writeAll {whole : Bool} (h : Runs (writeAll fd data) t whole) :
    ∀ e ∈ t, e.WritesTo fd := by
  have hasks : Asks (fun r => ∃ data, r = .call (.write fd data)) (writeAll fd data) :=
    (stays_writeAll (fun rest => ⟨rest, rfl⟩) data).asks
  intro e he
  obtain ⟨rest, hrequest⟩ := hasks.events h e he
  cases e with
  | fork child answer => cases hrequest
  | call request answer =>
    cases hrequest
    exact ⟨rest, answer, rfl⟩

/-- A round gives up exactly if it has been refused. -/
theorem refused_writeRound_iff {turned : ByteArray ⊕ Bool}
    (h : Runs (writeRound 2 data) t turned) : (∃ e ∈ t, e.Refused) ↔ turned = .inr false := by
  unfold writeRound at h
  split at h
  · obtain ⟨rfl, rfl⟩ := runs_done.mp h
    simp
  · obtain ⟨_, _, answer, rfl, hask, hrest⟩ := runs_bind.mp h
    obtain rfl := runs_ask.mp hask
    cases answer with
    | ok count =>
      dsimp only at hrest
      split at hrest <;> rename_i hcount <;> obtain ⟨rfl, rfl⟩ := runs_done.mp hrest <;>
        simp [Event.Refused, hcount]
    | error e =>
      dsimp only at hrest
      split at hrest <;> rename_i hinterrupted <;> obtain ⟨rfl, rfl⟩ := runs_done.mp hrest <;>
        simp [Event.Refused, hinterrupted]

/-- Everything is written unless something has been refused. -/
theorem refused_writeAll_iff {whole : Bool} (h : Runs (writeAll 2 data) t whole) :
    (∃ e ∈ t, e.Refused) ↔ whole = false := by
  replace h := runs_iterate.mp h
  induction h with
  | last h => simpa using refused_writeRound_iff h
  | round h _ ih =>
    have hround := refused_writeRound_iff h
    simp only [List.mem_append, or_and_right, exists_or, hround, ih, reduceCtorEq, false_or]

/-- Printing to standard error aborts only where that is refused. -/
theorem stays_printText (h : ∀ data, only (.call (.write 2 data))) (ha : only (.call .abort))
    (text : String) : Stays only (printText 2 text) := by
  refine (stays_writeAll h _).bind_runs fun t whole hrun u q hs => ?_
  cases whole with
  | true => exact (stays_done () u q hs).behind t
  | false =>
    obtain ⟨e, he, hrefused⟩ := (refused_writeAll_iff hrun).mpr rfl
    have hbefore : ∃ e ∈ t ++ u, e.Refused := ⟨e, List.mem_append_left u he, hrefused⟩
    cases hs with
    | refl _ =>
      refine ⟨nofun, ?_, fun _ _ _ => hbefore, .inl hbefore⟩
      rintro r ⟨⟩
      exact ha
    | call answer _ => cases answer

theorem runs_printText : Runs (printText fd text) t () ↔ Runs (writeAll fd text.toUTF8) t true := by
  have habort (u : List Event) : ¬ Runs (abort : Program Unit) u () := by
    intro h
    cases h with
    | call answer _ => cases answer
  constructor
  · intro h
    obtain ⟨t₁, t₂, whole, rfl, hrun, h⟩ := runs_bind.mp h
    cases whole with
    | true =>
      obtain ⟨rfl, -⟩ := runs_done.mp h
      rwa [List.append_nil]
    | false => exact absurd h (habort t₂)
  · intro h
    exact runs_bind.mpr ⟨t, [], true, (List.append_nil t).symm, h, .refl _⟩

theorem writes_of_printText (h : Runs (printText fd text) t ()) : ∀ e ∈ t, e.WritesTo fd :=
  writes_of_writeAll (runs_printText.mp h)

theorem runs_printText_written (fd : Fd) (text : String) :
    Runs (printText fd text) (written fd text.toUTF8) () :=
  runs_printText.mpr (runs_written fd _)

/-- Behind a part that is aborted nothing more is done. -/
theorem Program.Steps.bind_abort {α β : Type} {p : Program α} (h : Steps p t abort)
    (f : α → Program β) : Steps (p.bind f) t abort := by
  have hthen := h.bind f
  rwa [abort_bind] at hthen

/-- Where the system refuses a text at once, the process is aborted. -/
theorem steps_printText_refused {e : Errno} (hsome : text.toUTF8.isEmpty = false)
    (hinterrupted : e ≠ .interrupted) (hclosed : e ≠ .badFile) :
    Steps (printText fd text) [.call (.write fd text.toUTF8) (.error e)] abort := by
  have hround : Runs (writeRound fd text.toUTF8) [.call (.write fd text.toUTF8) (.error e)]
      (.inr false) := by
    simp only [writeRound, hsome]
    refine runs_bind.mpr ⟨_, [], _, rfl, runs_ask.mpr rfl, ?_⟩
    simp [hinterrupted, hclosed]
  have hall : Runs (writeAll fd text.toUTF8) [.call (.write fd text.toUTF8) (.error e)] false :=
    runs_iterate.mpr (.last hround)
  exact hall.bind _

end JobShell
