import CliproxyUsage.Soundness.QuotaEnvelopes

/-! # Reset credits are listed by expiry

The first credit that an account shows is the one that will be spent. Whether there is a list at all depends
on the expiries: times with an offset do not compare with times without one, and the sort raises on a mixture.
-/

namespace CliproxyUsage.Quota.Codex

open Python

variable {runtime : Runtime} {members : List (String × Json)} {rawCredits : List Json}

/-- The instant of a time, read in UTC where it has no offset. -/
def instant (at_ : DateTime) : ℤ := at_.wall - at_.offset.getD 0

/-- A summary lists exactly the available credits, the earliest expiry first, beside the count of the body. -/
structure ListsCredits (runtime : Runtime) (members : List (String × Json)) (rawCredits : List Json)
    (summary : ManualResetSummary) : Prop where
  credits : ∃ listed : List ManualResetCredit, summary.credits.Perm listed ∧
    List.Forall₂ (fun raw credit => runtime.str raw.1 = .ok credit.id ∧ credit.expiresAt = raw.2)
      (rawCredits.filterMap availableCredit) listed
  sorted : summary.credits.Pairwise fun first second => instant first.expiresAt ≤ instant second.expiresAt
  count : summary.availableCount = (nonNegativeInt (Json.get members "available_count")).getD summary.credits.length

/-- Times that both have an offset, or both have none, compare by their instants. -/
private theorem before_eq {first second : ManualResetCredit}
    (same : first.expiresAt.offset.isSome = second.expiresAt.offset.isSome) :
    before first second = .ok (decide (instant first.expiresAt < instant second.expiresAt)) := by
  rw [before, instant, instant]
  cases offset : first.expiresAt.offset with
  | none =>
    cases offset' : second.expiresAt.offset with
    | none => simp
    | some _ => simp [offset, offset'] at same
  | some _ =>
    cases offset' : second.expiresAt.offset with
    | none => simp [offset, offset'] at same
    | some _ => simp

private theorem sorted_of_sortM {credits sorted : List ManualResetCredit} (ran : credits.sortM before = .ok sorted) :
    sorted.Pairwise fun first second => instant first.expiresAt ≤ instant second.expiresAt := by
  have uniform := (@List.sortM_ok_iff _ _ _ before (fun credit : ManualResetCredit => credit.expiresAt.offset.isSome)
    before_ok_iff credits).mp ⟨sorted, ran⟩
  have byInstant := List.sortM_eq_insertionSort (f := fun credit : ManualResetCredit => instant credit.expiresAt)
    fun a member b member' => before_eq (uniform a member b member')
  rw [ran] at byInstant
  cases byInstant
  exact List.pairwise_insertionSort _ _

/-- A body with a list of credits has them listed by expiry exactly when the id of every available credit can
be printed, and all of their expiries carry an offset or none does. -/
theorem credits_listed_iff (listed : Json.get members "credits" = .list rawCredits) :
    (∃ summary, parseResetCredits runtime (.dict members) = .ok summary ∧
        ListsCredits runtime members rawCredits summary) ↔
      (∀ credit ∈ rawCredits.filterMap availableCredit, ∃ text, runtime.str credit.1 = .ok text) ∧
        ∀ a ∈ (rawCredits.filterMap availableCredit).map Prod.snd,
          ∀ b ∈ (rawCredits.filterMap availableCredit).map Prod.snd, a.offset.isSome = b.offset.isSome := by
  constructor
  · rintro ⟨summary, parsed, _⟩
    have readable := (@parseResetCredits_caught_iff runtime (.dict members)).mp (parsed ▸ caught_ok summary)
    rwa [CreditsReadable, listed] at readable
  · rintro ⟨printed, same⟩
    obtain ⟨found, mapped⟩ := mapM_parseCredit_ok_iff.mpr printed
    obtain ⟨credits, ran⟩ := sortM_before_ok_iff.mpr (expiries_of_mapM mapped ▸ same)
    let count := (nonNegativeInt (Json.get members "available_count")).getD credits.length
    refine ⟨{ availableCount := count, credits }, ?_, ⟨_, List.sortM_perm ran, found_of_mapM mapped⟩, sorted_of_sortM ran, rfl⟩
    simp only [parseResetCredits, listed, mapped, ran, uncaught_ok, Except.bind_def, Except.bind_ok, count]

def creditEntry (id expiresAt : String) : Json :=
  .dict [("id", .str id), ("reset_type", .str "codex_rate_limits"), ("status", .str "available"),
    ("expires_at", .str expiresAt)]

/-- Two credits with offsets, the one that expires later first. -/
def offsetCredits : List Json := [creditEntry "later" "2026-06-01T02:00:00Z", creditEntry "sooner" "2026-06-01T03:00:00+02:00"]

theorem credits_listed_offsets :
    ∃ summary, parseResetCredits plainRuntime (.dict [("credits", .list offsetCredits)]) = .ok summary ∧
      ListsCredits plainRuntime [("credits", .list offsetCredits)] offsetCredits summary := by
  have printed : ∀ credit ∈ offsetCredits.filterMap availableCredit, ∃ text, plainRuntime.str credit.1 = .ok text :=
    fun credit member => Except.exists_ok ((by decide +kernel : ∀ credit ∈ offsetCredits.filterMap availableCredit,
      (plainRuntime.str credit.1).toOption.isSome = true) credit member)
  exact (credits_listed_iff rfl).mpr ⟨printed, by decide +kernel⟩

/-- The same with one offset missing: no summary at all. -/
def mixedCredits : List Json := [creditEntry "later" "2026-06-01T02:00:00Z", creditEntry "sooner" "2026-06-01T01:00:00"]

theorem mixed_credits_raise :
    parseResetCredits plainRuntime (.dict [("credits", .list mixedCredits)]) = .error (.uncaught .typeError) ∧
      ¬∃ summary, parseResetCredits plainRuntime (.dict [("credits", .list mixedCredits)]) = .ok summary ∧
        ListsCredits plainRuntime [("credits", .list mixedCredits)] mixedCredits summary := by
  have raised : parseResetCredits plainRuntime (.dict [("credits", .list mixedCredits)]) =
      .error (.uncaught .typeError) := by decide +kernel
  refine ⟨raised, ?_⟩
  rintro ⟨summary, parsed, _⟩
  exact nomatch raised.symm.trans parsed

end CliproxyUsage.Quota.Codex
