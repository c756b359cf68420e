import CliproxyUsage.Machine.Core.Run
import CliproxyUsage.Model.AliasWarnings
import CliproxyUsage.Proofs.SameCells

/-! # How often an alias is warned about

However the calls of the options endpoint interleave, an alias that is logged matched no API key of the table
that some call queried, it is logged at most once for each thread, and never again once a call that took it has
ended and no other one still holds it.
-/

namespace CliproxyUsage

open Python Machine

variable {host : Host} {pricing : PricingMap} {aliases : List (String × String)} {threads : ℕ} {s next : Warnings}
  {es : List WarningEvent} {e : WarningEvent} {key : String} {i : ℕ}

section Unmatched

/-- An options response lists exactly the keys that API keys are displayed as. -/
theorem person_listed_iff {table : Requests} {body : OptionsResponse}
    (queried : (queryOptions host pricing aliases).run table = .ok body) :
    key ∈ body.keys .person ↔ ∃ value ∈ table.distinct .apiKey, redactKey value = key := by
  obtain ⟨cells, fetched, rfl⟩ := run_queryOptions_ok_iff.mp queried
  have listed : key ∈ (OptionsResponse.mk (entities aliases cells .person) (entities aliases cells .model)
      (entities aliases cells .credential)).keys .person ↔ ∃ c ∈ cells, c.key .person = key := mem_entities_keys
  rw [listed]
  constructor
  · rintro ⟨c, member, rfl⟩
    exact key_of_cell fetched member .person
  · rintro ⟨value, stored, rfl⟩
    obtain ⟨row, present, rfl⟩ := Requests.mem_distinct.mp stored
    have kept : row ∈ table.rows.filter (counted none {}) := List.mem_filter.mpr ⟨present, rfl⟩
    obtain ⟨c, member, label⟩ := (exists_label_iff fetched _).mpr ⟨row, kept, rfl⟩
    exact ⟨c, member, (key_label c .person).symm.trans (congrArg CellLabel.person label)⟩

theorem mem_unmatched {body : OptionsResponse} {warned : List String} :
    key ∈ unmatched aliases body warned ↔
      key ∈ aliases.map Prod.fst ∧ key ∉ body.keys .person ∧ key ∉ warned := by
  rw [unmatched, (List.perm_insertionSort ..).mem_iff, List.mem_filter, List.mem_eraseDups, decide_eq_true_eq]

theorem nodup_unmatched {body : OptionsResponse} {warned : List String} : (unmatched aliases body warned).Nodup := by
  rw [unmatched, (List.perm_insertionSort ..).nodup_iff]
  exact (List.nodup_eraseDups _).filter _

end Unmatched

section Steps

/-- What a step does. -/
theorem warnings_step (stepped : s.step host pricing aliases threads e = some next) :
    next = s ∨
    (∃ table body, e = .query table ∧ s.calls.length < threads ∧ (queryOptions host pricing aliases).run table = .ok body ∧
      next = { s with calls := s.calls ++ [⟨unmatched aliases body s.warned, unmatched aliases body s.warned⟩] }) ∨
    (∃ before keys key rest after, s.calls = before ++ ⟨keys, key :: rest⟩ :: after ∧
      next = { s with calls := before ++ ⟨keys, rest⟩ :: after, log := s.log ++ [key] }) ∨
    ∃ before keys after, s.calls = before ++ ⟨keys, []⟩ :: after ∧
      next = { s with warned := s.warned ++ keys, calls := before ++ after } := by
  cases e with
  | query table =>
    rw [Warnings.step] at stepped
    split at stepped
    · next room =>
      split at stepped
      · next body queried => exact .inr (.inl ⟨table, body, rfl, room, queried, (Option.some.inj stepped).symm⟩)
      · exact .inl (Option.some.inj stepped).symm
    · cases stepped
  | log i =>
    rw [Warnings.step] at stepped
    split at stepped
    · next keys key rest here =>
      obtain ⟨bound, here⟩ := List.getElem?_eq_some_iff.mp here
      refine .inr (.inr (.inl ⟨s.calls.take i, keys, key, rest, s.calls.drop (i + 1), ?_, ?_⟩))
      · rw [← here, List.getElem_cons_drop, List.take_append_drop]
      · rw [← Option.some.inj stepped, List.set_eq_take_append_cons_drop, if_pos bound]
    · cases stepped
  | finish i =>
    rw [Warnings.step] at stepped
    split at stepped
    · next keys here =>
      obtain ⟨bound, here⟩ := List.getElem?_eq_some_iff.mp here
      refine .inr (.inr (.inr ⟨s.calls.take i, keys, s.calls.drop (i + 1), ?_, ?_⟩))
      · rw [← here, List.getElem_cons_drop, List.take_append_drop]
      · rw [← Option.some.inj stepped, List.eraseIdx_eq_take_drop_succ]
    · cases stepped

end Steps

section Count

/-- The call has not logged a key that it took. -/
def OptionsCall.owes (key : String) (c : OptionsCall) : Bool := key ∈ c.toLog

def OptionsCall.wrote (key : String) (c : OptionsCall) : Bool := key ∈ c.unmatched ∧ key ∉ c.toLog

/-- Until a key counts as warned about, it has been logged once by each of the calls that run and took it. -/
structure Warnings.Counted (threads : ℕ) (key : String) (s : Warnings) : Prop where
  room : s.calls.length ≤ threads
  left : ∀ c ∈ s.calls, c.unmatched.Nodup ∧ c.toLog <:+ c.unmatched
  fresh : key ∉ s.warned → s.log.count key = s.calls.countP (·.wrote key)
  marked : key ∈ s.warned → s.log.count key + s.calls.countP (·.owes key) ≤ threads

private theorem countP_wrote_add_owes (calls : List OptionsCall) :
    calls.countP (·.wrote key) + calls.countP (·.owes key) ≤ calls.length := by
  induction calls with
  | nil => exact Nat.le_refl 0
  | cons c calls ih =>
    have apart : ¬(c.wrote key = true ∧ c.owes key = true) := by
      simp only [OptionsCall.wrote, OptionsCall.owes, decide_eq_true_eq]
      exact fun both => both.1.2 both.2
    rw [List.countP_cons, List.countP_cons, List.length_cons]
    split_ifs <;> first | omega | exact absurd ⟨‹_›, ‹_›⟩ apart

/-- A call that has just queried has logged nothing. -/
private theorem counted_query {body : OptionsResponse} (counted : s.Counted threads key) (room : s.calls.length < threads) :
    Warnings.Counted threads key
      { s with calls := s.calls ++ [⟨unmatched aliases body s.warned, unmatched aliases body s.warned⟩] } := by
  refine ⟨?_, ?_, ?_, ?_⟩
  · rw [List.length_append, List.length_singleton]
    exact room
  · intro c member
    rcases List.mem_append.mp member with old | new
    · exact counted.left c old
    · rw [List.mem_singleton.mp new]
      exact ⟨nodup_unmatched, List.suffix_rfl⟩
  · intro fresh
    rw [List.countP_append, counted.fresh fresh]
    simp [OptionsCall.wrote]
  · intro marked
    have known : key ∉ unmatched aliases body s.warned := fun taken => (mem_unmatched.mp taken).2.2 marked
    rw [List.countP_append]
    simpa [OptionsCall.owes, known] using counted.marked marked

private theorem counted_log {before after : List OptionsCall} {keys rest : List String} {own : String}
    (counted : s.Counted threads key) (calls : s.calls = before ++ ⟨keys, own :: rest⟩ :: after) :
    Warnings.Counted threads key { s with calls := before ++ ⟨keys, rest⟩ :: after, log := s.log ++ [own] } := by
  obtain ⟨unique, suffix⟩ := counted.left ⟨keys, own :: rest⟩ (by simp [calls])
  have apart : own ∉ rest := (List.nodup_cons.mp (suffix.sublist.nodup unique)).1
  have taken : own ∈ keys := suffix.subset (List.mem_cons_self ..)
  obtain ⟨room, left, fresh, marked⟩ := counted
  rw [calls] at room left fresh marked
  refine ⟨?_, ?_, ?_, ?_⟩
  · simpa using room
  · intro c member
    rcases List.mem_append.mp member with old | here
    · exact left c (List.mem_append_left _ old)
    · rcases List.mem_cons.mp here with rfl | old
      · exact ⟨unique, (List.suffix_cons own rest).trans suffix⟩
      · exact left c (List.mem_append_right _ (List.mem_cons_of_mem _ old))
  · intro unmarked
    have known := fresh unmarked
    rw [List.countP_append, List.countP_cons] at known ⊢
    rw [List.count_append, known]
    by_cases same : own = key
    · subst same
      simp [OptionsCall.wrote, taken, apart]
      omega
    · simp [OptionsCall.wrote, same, Ne.symm same]
  · intro warned
    have bound := marked warned
    rw [List.countP_append, List.countP_cons] at bound ⊢
    rw [List.count_append]
    by_cases same : own = key
    · subst same
      simp [OptionsCall.owes, apart] at bound ⊢
      omega
    · simp [OptionsCall.owes, same, Ne.symm same] at bound ⊢
      omega

private theorem counted_finish {before after : List OptionsCall} {keys : List String} (counted : s.Counted threads key)
    (calls : s.calls = before ++ ⟨keys, []⟩ :: after) :
    Warnings.Counted threads key { s with warned := s.warned ++ keys, calls := before ++ after } := by
  obtain ⟨room, left, fresh, marked⟩ := counted
  have total := @countP_wrote_add_owes key s.calls
  rw [calls] at room left fresh marked total
  refine ⟨?_, ?_, ?_, ?_⟩
  · simp only [List.length_append, List.length_cons] at room ⊢
    omega
  · intro c member
    rcases List.mem_append.mp member with old | old
    · exact left c (List.mem_append_left _ old)
    · exact left c (List.mem_append_right _ (List.mem_cons_of_mem _ old))
  · intro unmarked
    rw [List.mem_append, not_or] at unmarked
    have known := fresh unmarked.1
    rw [List.countP_append, List.countP_cons] at known
    rw [known, List.countP_append]
    simp [OptionsCall.wrote, unmarked.2]
  · intro warned
    rw [List.countP_append, List.countP_cons] at marked fresh total
    rw [List.countP_append] at total ⊢
    simp only [List.length_append, List.length_cons] at room total
    by_cases old : key ∈ s.warned
    · have bound := marked old
      simp [OptionsCall.owes] at bound ⊢
      omega
    · have known := fresh old
      simp [OptionsCall.owes] at total known ⊢
      omega

private theorem counted_step (counted : s.Counted threads key)
    (stepped : s.step host pricing aliases threads e = some next) : next.Counted threads key := by
  rcases warnings_step stepped with rfl | ⟨table, body, _, room, _, rfl⟩ | ⟨before, keys, own, rest, after, calls, rfl⟩ |
    ⟨before, keys, after, calls, rfl⟩
  · exact counted
  · exact counted_query counted room
  · exact counted_log counted calls
  · exact counted_finish counted calls

private theorem counted_run (ran : run (Warnings.step host pricing aliases threads) {} es = some s) :
    s.Counted threads key := by
  refine run_invariant (I := fun s : Warnings => s.Counted threads key) ?_ ?_ ran
  · intro s e next counted stepped
    exact counted_step counted stepped
  · exact ⟨Nat.zero_le _, nofun, fun _ => rfl, nofun⟩

end Count

section Truth

/-- Some call queried a table of which no API key is displayed as the alias. -/
def Unmatched (aliases : List (String × String)) (es : List WarningEvent) (key : String) : Prop :=
  key ∈ aliases.map Prod.fst ∧
    ∃ table, .query table ∈ es ∧ ∀ value ∈ table.distinct .apiKey, redactKey value ≠ key

theorem Unmatched.concat (held : Unmatched aliases es key) : Unmatched aliases (es ++ [e]) key := by
  obtain ⟨known, table, queried, apart⟩ := held
  exact ⟨known, table, List.mem_append_left _ queried, apart⟩

/-- The keys that are logged, marked, or taken by a call that runs. -/
structure Warnings.Truthful (aliases : List (String × String)) (es : List WarningEvent) (s : Warnings) : Prop where
  taken : ∀ c ∈ s.calls, (∀ key ∈ c.unmatched, Unmatched aliases es key) ∧ c.toLog ⊆ c.unmatched ∧
    ∀ key ∈ c.unmatched, key ∈ c.toLog ∨ key ∈ s.log
  logged : ∀ key ∈ s.log, Unmatched aliases es key
  marked : s.warned ⊆ s.log

private theorem truthful_step (truthful : s.Truthful aliases es)
    (stepped : s.step host pricing aliases threads e = some next) : next.Truthful aliases (es ++ [e]) := by
  obtain ⟨taken, logged, marked⟩ := truthful
  have kept : ∀ c ∈ s.calls, (∀ key ∈ c.unmatched, Unmatched aliases (es ++ [e]) key) ∧ c.toLog ⊆ c.unmatched ∧
      ∀ key ∈ c.unmatched, key ∈ c.toLog ∨ key ∈ s.log := by
    intro c member
    obtain ⟨known, rest⟩ := taken c member
    exact ⟨fun key held => (known key held).concat, rest⟩
  have told : ∀ key ∈ s.log, Unmatched aliases (es ++ [e]) key := fun key held => (logged key held).concat
  rcases warnings_step stepped with rfl | ⟨table, body, rfl, _, queried, rfl⟩ |
    ⟨before, keys, own, rest, after, calls, rfl⟩ | ⟨before, keys, after, calls, rfl⟩
  · exact ⟨kept, told, marked⟩
  · refine ⟨?_, told, marked⟩
    intro c member
    rcases List.mem_append.mp member with old | new
    · exact kept c old
    · rw [List.mem_singleton.mp new]
      refine ⟨?_, List.Subset.refl _, fun key held => .inl held⟩
      intro key held
      obtain ⟨known, absent, _⟩ := mem_unmatched.mp held
      refine ⟨known, table, List.mem_append_right _ (List.mem_singleton_self _), ?_⟩
      intro value stored displayed
      exact absent ((person_listed_iff queried).mpr ⟨value, stored, displayed⟩)
  · rw [calls] at kept
    obtain ⟨known, within, rest_⟩ := kept ⟨keys, own :: rest⟩ (by simp)
    refine ⟨?_, ?_, fun key held => List.mem_append_left _ (marked held)⟩
    · intro c member
      rcases List.mem_append.mp member with old | here
      · obtain ⟨known, within, reached⟩ := kept c (List.mem_append_left _ old)
        exact ⟨known, within, fun key held => (reached key held).imp_right (List.mem_append_left _)⟩
      · rcases List.mem_cons.mp here with rfl | old
        · refine ⟨known, fun key held => within (List.mem_cons_of_mem _ held), ?_⟩
          intro key held
          rcases rest_ key held with left | past
          · rcases List.mem_cons.mp left with rfl | left
            · exact .inr (List.mem_append_right _ (List.mem_singleton_self _))
            · exact .inl left
          · exact .inr (List.mem_append_left _ past)
        · obtain ⟨known, within, reached⟩ := kept c (List.mem_append_right _ (List.mem_cons_of_mem _ old))
          exact ⟨known, within, fun key held => (reached key held).imp_right (List.mem_append_left _)⟩
    · intro key held
      rcases List.mem_append.mp held with old | new
      · exact told key old
      · rw [List.mem_singleton.mp new]
        exact known own (within (List.mem_cons_self ..))
  · rw [calls] at kept
    obtain ⟨_, _, reached⟩ := kept ⟨keys, []⟩ (by simp)
    refine ⟨?_, told, ?_⟩
    · intro c member
      rcases List.mem_append.mp member with old | old
      · exact kept c (List.mem_append_left _ old)
      · exact kept c (List.mem_append_right _ (List.mem_cons_of_mem _ old))
    · intro key held
      rcases List.mem_append.mp held with old | new
      · exact marked old
      · exact (reached key new).resolve_left List.not_mem_nil

private theorem truthful_run (ran : run (Warnings.step host pricing aliases threads) {} es = some s) :
    s.Truthful aliases es := by
  refine run_trace (fun es (s : Warnings) => s.Truthful aliases es) ?_ ?_ ran
  · exact ⟨nofun, nofun, List.Subset.refl _⟩
  · intro es s e next _ truthful stepped
    exact truthful_step truthful stepped

end Truth

section Silence

/-- A key that was warned about, and that no call still has to log. -/
def Warnings.Over (key : String) (s : Warnings) : Prop := key ∈ s.warned ∧ ∀ c ∈ s.calls, key ∉ c.toLog

private theorem over_step (over_ : s.Over key) (stepped : s.step host pricing aliases threads e = some next) :
    next.Over key ∧ next.log.count key = s.log.count key := by
  obtain ⟨marked, held⟩ := over_
  rcases warnings_step stepped with rfl | ⟨table, body, _, _, _, rfl⟩ | ⟨before, keys, own, rest, after, calls, rfl⟩ |
    ⟨before, keys, after, calls, rfl⟩
  · exact ⟨⟨marked, held⟩, rfl⟩
  · refine ⟨⟨marked, ?_⟩, rfl⟩
    intro c member
    rcases List.mem_append.mp member with old | new
    · exact held c old
    · rw [List.mem_singleton.mp new]
      exact fun taken => (mem_unmatched.mp taken).2.2 marked
  · rw [calls] at held
    have apart := held ⟨keys, own :: rest⟩ (by simp)
    rw [List.mem_cons, not_or] at apart
    refine ⟨⟨marked, ?_⟩, ?_⟩
    · intro c member
      rcases List.mem_append.mp member with old | here
      · exact held c (List.mem_append_left _ old)
      · rcases List.mem_cons.mp here with rfl | old
        · exact apart.2
        · exact held c (List.mem_append_right _ (List.mem_cons_of_mem _ old))
    · rw [List.count_append, List.count_singleton, if_neg (by simpa using Ne.symm apart.1)]
      rfl
  · rw [calls] at held
    refine ⟨⟨List.mem_append_left _ marked, ?_⟩, rfl⟩
    intro c member
    rcases List.mem_append.mp member with old | old
    · exact held c (List.mem_append_left _ old)
    · exact held c (List.mem_append_right _ (List.mem_cons_of_mem _ old))

private theorem over_run {later : List WarningEvent} {after : Warnings} (over_ : s.Over key)
    (ran : run (Warnings.step host pricing aliases threads) s later = some after) :
    after.log.count key = s.log.count key := by
  have kept : after.Over key ∧ after.log.count key = s.log.count key := by
    refine run_invariant (I := fun after : Warnings => after.Over key ∧ after.log.count key = s.log.count key) ?_
      ⟨over_, rfl⟩ ran
    rintro middle e next ⟨over_, same⟩ stepped
    obtain ⟨over_, kept⟩ := over_step over_ stepped
    exact ⟨over_, kept.trans same⟩
  exact kept.2

end Silence

/-- An alias is logged at most once by each thread, and only if a call queried a table of which no API key is displayed as
the alias. What counts as warned about has been logged, and is not logged again once no call still holds it. -/
theorem alias_warnings_bounded (ran : run (Warnings.step host pricing aliases threads) {} es = some s) (key : String) :
    s.log.count key ≤ threads ∧ (key ∈ s.log → Unmatched aliases es key) ∧ (key ∈ s.warned → key ∈ s.log) ∧
      (s.Over key → ∀ later after, run (Warnings.step host pricing aliases threads) s later = some after →
        after.log.count key = s.log.count key) := by
  have counted : s.Counted threads key := counted_run ran
  obtain ⟨_, logged, marked⟩ := truthful_run ran
  refine ⟨?_, logged key, fun held => marked held, fun over_ later after reached => over_run over_ reached⟩
  by_cases known : key ∈ s.warned
  · exact le_trans (Nat.le_add_right _ _) (counted.marked known)
  · rw [counted.fresh known]
    exact le_trans List.countP_le_length counted.room

/-- Two calls on an empty database that log before either of them ends. -/
def twoCalls : List WarningEvent := [.query .empty, .query .empty, .log 0, .log 1, .finish 0]

/-- An API key, as it is displayed. -/
def teamAlias : List (String × String) := [("sk-*******-0042", "Team")]

theorem alias_warnings_bounded_two :
    ["sk-*******-0042", "sk-*******-0042"].count "sk-*******-0042" ≤ 2 ∧ Unmatched teamAlias twoCalls "sk-*******-0042" := by
  have ran : run (Warnings.step .utc .empty teamAlias 2) {} twoCalls = some
      { warned := ["sk-*******-0042"]
        calls := [⟨["sk-*******-0042"], []⟩]
        log := ["sk-*******-0042", "sk-*******-0042"] } := by decide +kernel
  obtain ⟨bounded, truthful, _⟩ := alias_warnings_bounded ran "sk-*******-0042"
  exact ⟨bounded, truthful (by decide)⟩

end CliproxyUsage
