import CliproxyUsage.Model.Redact

/-! # Masked keys and sources

A redacted key has one of two forms, and redacting either form again changes nothing. A source with a
run of three stars is taken for a redacted one and shown as it is, so sources are masked exactly where
no other source has such a run.
-/

namespace CliproxyUsage

open Python

/-- Seven stars before at most four characters, or seven stars between two dash-parts. -/
def Masked (shown : String) : Prop :=
  (∃ tail : String, tail.toList.length ≤ 4 ∧ shown = "*******" ++ tail) ∨
    ∃ first last : String, '-' ∉ first.toList ∧ '-' ∉ last.toList ∧ shown = first ++ "-*******-" ++ last

section Forms

variable {key first last tail : String}

/-- The form of three or more dash-parts. -/
private theorem redactKey_long {second third : String} {rest : List String}
    (parts : split '-' key = first :: second :: third :: rest) :
    redactKey key = first ++ "-*******-" ++ rest.getLastD third := by
  rw [redactKey, parts]

/-- The form of one or two dash-parts. -/
private theorem redactKey_short (few : key.toList.count '-' ≤ 1) :
    redactKey key = "*******" ++ lastChars 4 (removeHead "*******" key) := by
  have length := length_split '-' key
  rw [redactKey]
  split
  · next first second third rest parts =>
    rw [parts, List.length_cons, List.length_cons, List.length_cons] at length
    omega
  · rfl

private theorem removeHead_append (head s : String) : removeHead head (head ++ s) = s := by
  rw [removeHead, String.toList_append, if_pos (List.prefix_append ..), List.drop_left, String.ofList_toList]

private theorem lastChars_of_length_le {n : ℕ} (short : tail.toList.length ≤ n) : lastChars n tail = tail := by
  rw [lastChars, Nat.sub_eq_zero_of_le short, List.drop_zero, String.ofList_toList]

/-- What is left of a key without its stars has no more dashes than the key. -/
private theorem count_lastChars_le (n : ℕ) (c : Char) (key : String) :
    (lastChars n (removeHead "*******" key)).toList.count c ≤ key.toList.count c := by
  have base : (removeHead "*******" key).toList.Sublist key.toList := by
    rw [removeHead]
    split
    · rw [String.toList_ofList]
      exact List.drop_sublist ..
    · exact List.Sublist.refl _
  rw [lastChars, String.toList_ofList]
  exact ((List.drop_sublist ..).trans base).count_le c

/-- A redacted key has seven stars between two dash-parts, or before a tail of one or two of them. -/
theorem redactKey_forms (key : String) :
    (∃ first last : String, '-' ∉ first.toList ∧ '-' ∉ last.toList ∧ redactKey key = first ++ "-*******-" ++ last) ∨
      ∃ tail : String, tail.toList.length ≤ 4 ∧ tail.toList.count '-' ≤ 1 ∧ redactKey key = "*******" ++ tail := by
  by_cases few : key.toList.count '-' ≤ 1
  · refine .inr ⟨_, ?_, (count_lastChars_le 4 '-' key).trans few, redactKey_short few⟩
    rw [lastChars, String.toList_ofList, List.length_drop]
    omega
  · have length := length_split '-' key
    have free : ∀ part ∈ split '-' key, '-' ∉ part.toList := fun part => not_mem_of_mem_split
    match parts : split '-' key with
    | [] | [_] | [_, _] =>
      simp only [parts, List.length_cons, List.length_nil] at length
      omega
    | first :: second :: third :: rest =>
      rw [parts] at free
      refine .inl ⟨first, rest.getLastD third, free first (List.mem_cons_self ..), ?_, redactKey_long parts⟩
      apply free
      exact List.mem_cons_of_mem _ (List.mem_cons_of_mem _ List.getLastD_mem_cons)

/-- Redacting keeps the first form. -/
private theorem redactKey_between (free : '-' ∉ first.toList) (free' : '-' ∉ last.toList) :
    redactKey (first ++ "-*******-" ++ last) = first ++ "-*******-" ++ last := by
  have joined : first ++ "-*******-" ++ last = "-".intercalate [first, "*******", last] := by
    apply String.toList_injective
    simp
  have parts : split '-' (first ++ "-*******-" ++ last) = [first, "*******", last] := by
    rw [joined]
    refine split_intercalate (by simp) fun part member => ?_
    simp only [List.mem_cons, List.not_mem_nil, or_false] at member
    rcases member with rfl | rfl | rfl
    · exact free
    · decide
    · exact free'
  exact redactKey_long parts

/-- Redacting keeps the second form, as its stars are stripped before the last characters are taken. -/
private theorem redactKey_before (short : tail.toList.length ≤ 4) (few : tail.toList.count '-' ≤ 1) :
    redactKey ("*******" ++ tail) = "*******" ++ tail := by
  have dashes : ("*******" ++ tail).toList.count '-' ≤ 1 := by
    rw [String.toList_append, List.count_append]
    simpa using few
  rw [redactKey_short dashes, removeHead_append, lastChars_of_length_le short]

theorem redactKey_redactKey (key : String) : redactKey (redactKey key) = redactKey key := by
  rcases redactKey_forms key with ⟨first, last, free, free', shown⟩ | ⟨tail, short, few, shown⟩
  · rw [shown, redactKey_between free free']
  · rw [shown, redactKey_before short few]

theorem masked_redactKey (key : String) : Masked (redactKey key) := by
  rcases redactKey_forms key with ⟨first, last, free, free', shown⟩ | ⟨tail, short, _, shown⟩
  · exact .inr ⟨first, last, free, free', shown⟩
  · exact .inl ⟨tail, short, shown⟩

/-- A masked value has a run of three stars. -/
theorem Masked.contains {shown : String} (masked : Masked shown) : contains "***" shown = true := by
  have run : "***".toList <:+: "*******".toList := ⟨[], ['*', '*', '*', '*'], rfl⟩
  rw [Python.contains, decide_eq_true_eq]
  rcases masked with ⟨tail, _, rfl⟩ | ⟨first, last, _, _, rfl⟩
  · rw [String.toList_append]
    exact run.trans (List.prefix_append ..).isInfix
  · rw [String.toList_append, String.toList_append]
    refine List.IsInfix.trans ?_ (List.prefix_append ..).isInfix
    exact List.IsInfix.trans ⟨['-'], ['*', '*', '*', '*', '-'], rfl⟩ (List.suffix_append ..).isInfix

end Forms

section Sources

variable {source other : String}

/-- A source that is neither empty nor an email. -/
structure Secret (source : String) : Prop where
  nonempty : source ≠ "" ∧ source ≠ emptyKey
  noEmail : '@' ∉ source.toList

instance (source : String) : Decidable (Secret source) :=
  decidable_of_iff ((source ≠ "" ∧ source ≠ emptyKey) ∧ '@' ∉ source.toList)
    ⟨fun both => ⟨both.1, both.2⟩, fun secret => ⟨secret.nonempty, secret.noEmail⟩⟩

/-- Either no run of three stars stops the redaction, or there is nothing left to redact. -/
def Redacts (source : String) : Prop := contains "***" source = false ∨ redactKey source = source

/-- Secrets are redacted, but for those with a run of three stars. -/
theorem redactSource_secret (secret : Secret source) :
    redactSource source = if contains "***" source then source else redactKey source := by
  have named : ¬(source = "" ∨ source = emptyKey) := not_or.mpr secret.nonempty
  have noEmail : contains "@" source = false := by
    rw [contains, decide_eq_false_iff_not]
    exact fun found => secret.noEmail (found.subset (List.mem_singleton.mpr rfl))
  simp [redactSource, named, noEmail]

private theorem redactSource_of_contains (run : contains "***" source = true) (named : source ≠ "") :
    redactSource source = source := by
  have other : source ≠ emptyKey := by
    rintro rfl
    exact absurd run (by decide)
  simp [redactSource, named, other, run]

private theorem Redacts.redactSource_eq (redacts : Redacts source) (secret : Secret source) :
    redactSource source = redactKey source := by
  rw [redactSource_secret secret]
  rcases redacts with free | settled
  · rw [if_neg (by simp [free])]
  · rw [settled, ite_self]

private theorem redactSource_of_not_redacts (shown : ¬Redacts source) (secret : Secret source) :
    redactSource source = source := by
  rw [Redacts, not_or, Bool.not_eq_false] at shown
  rw [redactSource_secret secret, if_pos shown.1]

private theorem masked_redactSource_iff (secret : Secret source) :
    Masked (redactSource source) ↔ contains "***" source = false ∨ Masked source := by
  rw [redactSource_secret secret]
  cases run : contains "***" source with
  | false => simp [masked_redactKey]
  | true => simp

/-- Two sources that redact alike are shown alike where both are redacted. -/
private theorem redactSource_eq_iff (secret : Secret source) (secret' : Secret other)
    (alike : redactKey source = redactKey other) :
    redactSource source = redactSource other ↔ source = other ∨ Redacts source ∧ Redacts other := by
  constructor
  · intro same
    by_cases first : Redacts source
    · by_cases second : Redacts other
      · exact .inr ⟨first, second⟩
      · -- The other one is shown as it is, as a value that redacting leaves alone.
        rw [first.redactSource_eq secret, redactSource_of_not_redacts second secret'] at same
        exact absurd (.inr (alike ▸ same)) second
    · rw [redactSource_of_not_redacts first secret] at same
      by_cases second : Redacts other
      · rw [second.redactSource_eq secret', ← alike] at same
        exact absurd (.inr same.symm) first
      · rw [redactSource_of_not_redacts second secret'] at same
        exact .inl same
  · rintro (rfl | ⟨first, second⟩)
    · rfl
    · rw [first.redactSource_eq secret, second.redactSource_eq secret', alike]

/-- A secret is masked exactly where it has no run of three stars or is masked already, and two secrets
that redact alike are shown alike exactly where they are equal or both redacted. -/
theorem secrets_are_masked_iff (secret : Secret source) (secret' : Secret other)
    (alike : redactKey source = redactKey other) :
    (Masked (redactSource source) ↔ contains "***" source = false ∨ Masked source) ∧
      (redactSource source = redactSource other ↔ source = other ∨ Redacts source ∧ Redacts other) :=
  ⟨masked_redactSource_iff secret, redactSource_eq_iff secret secret' alike⟩

/-- Two raw keys of one redacted form are both masked. -/
theorem secrets_are_masked_apart :
    Secret "sk-team-0042" ∧ Secret "sk-ops-0042" ∧ redactKey "sk-team-0042" = redactKey "sk-ops-0042" ∧
      Masked (redactSource "sk-team-0042") ∧ redactSource "sk-team-0042" = redactSource "sk-ops-0042" := by
  have secret : Secret "sk-team-0042" := by decide
  have secret' : Secret "sk-ops-0042" := by decide
  have alike : redactKey "sk-team-0042" = redactKey "sk-ops-0042" := by decide
  obtain ⟨masked, same⟩ := secrets_are_masked_iff secret secret' alike
  exact ⟨secret, secret', alike, masked.mpr (.inl (by decide)), same.mpr (.inr ⟨.inl (by decide), .inl (by decide)⟩)⟩

/-- A secret with three stars in it is shown in full, and another one of its redacted form is not. -/
theorem secrets_show :
    Secret "sk***0042" ∧ redactSource "sk***0042" = "sk***0042" ∧ ¬Masked (redactSource "sk***0042") ∧
      Secret "live0042" ∧ redactKey "live0042" = redactKey "sk***0042" ∧
      redactSource "live0042" ≠ redactSource "sk***0042" := by
  have shown : redactSource "sk***0042" = "sk***0042" := by decide
  refine ⟨by decide, shown, ?_, by decide, by decide, by decide⟩
  rw [shown]
  rintro (⟨tail, _, same⟩ | ⟨first, last, _, _, same⟩)
  · have front := congrArg (fun s : String => s.toList.head?) same
    simp at front
  · have dash : '-' ∈ (first ++ "-*******-" ++ last).toList := by simp
    rw [← same] at dash
    exact absurd dash (by decide)

/-- Redacting a key or a source twice is redacting it once. -/
theorem redaction_is_idempotent (text : String) :
    redactKey (redactKey text) = redactKey text ∧ redactSource (redactSource text) = redactSource text := by
  refine ⟨redactKey_redactKey text, ?_⟩
  by_cases named : text = "" ∨ text = emptyKey
  · have placeholder : redactSource text = emptyKey := if_pos named
    rw [placeholder]
    decide
  · by_cases run : contains "***" text = true
    · rw [redactSource_of_contains run (not_or.mp named).1, redactSource_of_contains run (not_or.mp named).1]
    · by_cases email : contains "@" text = true
      · have kept : redactSource text = text := by simp [redactSource, named, run, email]
        rw [kept, kept]
      · have redacted : redactSource text = redactKey text := by simp [redactSource, named, run, email]
        have masked := (masked_redactKey text).contains
        rw [redacted]
        apply redactSource_of_contains masked
        intro empty
        exact absurd (empty ▸ masked) (by decide)

end Sources

end CliproxyUsage
