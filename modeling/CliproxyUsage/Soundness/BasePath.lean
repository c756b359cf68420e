import CliproxyUsage.Frontend.Api

/-! # Base paths

A base path that the configuration accepts is the root, or starts with one slash and ends with none. The page
computes the server's API prefix from it, with or without the prefix in its runtime configuration.
-/

namespace CliproxyUsage

open Python Frontend

variable {value basePath : String}

/-- A base path as the server uses it. -/
structure IsBasePath (basePath : String) : Prop where
  starts : ∃ rest, basePath.toList = '/' :: rest ∧ rest.head? ≠ some '/'
  ends : basePath = "/" ∨ basePath.toList.getLast? ≠ some '/'
  clean : '?' ∉ basePath.toList ∧ '#' ∉ basePath.toList

private theorem getLast?_rdropWhile (chars : List Char) : (chars.rdropWhile fun c => c = '/').getLast? ≠ some '/' := by
  intro last
  have nonempty : (chars.rdropWhile fun c => c = '/') ≠ [] := by
    intro empty
    rw [empty] at last
    cases last
  have other := List.rdropWhile_last_not (fun c => decide (c = '/')) chars nonempty
  rw [List.getLast?_eq_getLast_of_ne_nil nonempty, Option.some.injEq] at last
  exact other (decide_eq_true last)

/-- What the server does with an accepted value. -/
private theorem accepted_cases (accepted : normalizeBasePath value = .ok basePath) :
    ((strip value = "" ∨ strip value = "/") ∧ basePath = "/") ∨
      (strip value ≠ "" ∧ strip value ≠ "/" ∧ (strip value).toList.head? = some '/' ∧ ¬['/', '/'] <+: (strip value).toList ∧
        ('?' ∉ (strip value).toList ∧ '#' ∉ (strip value).toList) ∧
        basePath = String.ofList ((strip value).toList.rdropWhile fun c => c = '/')) := by
  simp only [normalizeBasePath] at accepted
  split_ifs at accepted with root slash double query
  · exact .inl ⟨root, (Except.ok.inj accepted).symm⟩
  · rw [not_or] at root query
    exact .inr ⟨root.1, root.2, not_not.mp slash, double, query, (Except.ok.inj accepted).symm⟩

/-- A text that starts with one slash keeps its first two characters when those at its end are dropped. -/
private theorem rdropWhile_slashes {second : Char} {more : List Char} (apart : second ≠ '/') :
    ∃ rest, (('/' :: second :: more).rdropWhile fun c => c = '/') = '/' :: second :: rest := by
  have whole := @List.rdropWhile_append_rtakeWhile _ (fun c => decide (c = '/')) ('/' :: second :: more)
  have dropped {c : Char} (member : c ∈ ('/' :: second :: more).rtakeWhile fun c => c = '/') : c = '/' :=
    of_decide_eq_true (@List.mem_rtakeWhile_imp _ (fun c => decide (c = '/')) _ _ member)
  match kept : ('/' :: second :: more).rdropWhile fun c => c = '/' with
  | [] =>
    rw [kept, List.nil_append] at whole
    exact absurd (dropped (c := second) (by rw [whole]; simp)) apart
  | [c] =>
    rw [kept, List.singleton_append] at whole
    exact absurd (dropped (c := second) (by rw [(List.cons.inj whole).2]; simp)) apart
  | c :: d :: rest =>
    rw [kept, List.cons_append, List.cons_append] at whole
    obtain ⟨rfl, tail⟩ := List.cons.inj whole
    obtain ⟨rfl, _⟩ := List.cons.inj tail
    exact ⟨rest, rfl⟩

/-- What is accepted has the form of a base path. -/
private theorem isBasePath_of_accepted (accepted : normalizeBasePath value = .ok basePath) : IsBasePath basePath := by
  rcases accepted_cases accepted with ⟨_, rfl⟩ | ⟨_, other, slash, double, clean, rfl⟩
  · exact ⟨⟨[], rfl, by decide⟩, .inl rfl, by decide⟩
  · obtain ⟨rest, text⟩ := List.head?_eq_some_iff.mp slash
    obtain ⟨second, more, rfl⟩ : ∃ second more, rest = second :: more := by
      refine List.exists_cons_of_ne_nil ?_
      rintro rfl
      exact other (String.toList_inj.mp text)
    have apart : second ≠ '/' := by
      rintro rfl
      exact double ⟨more, text.symm⟩
    have kept := List.rdropWhile_prefix (fun c => decide (c = '/')) (strip value).toList
    obtain ⟨rest, first⟩ := @rdropWhile_slashes second more apart
    refine ⟨⟨second :: rest, ?_, ?_⟩, .inr ?_, ?_⟩
    · rw [String.toList_ofList, text, first]
    · simpa using apart
    · rw [String.toList_ofList]
      exact getLast?_rdropWhile _
    · rw [String.toList_ofList]
      exact ⟨fun query => clean.1 (kept.subset query), fun fragment => clean.2 (kept.subset fragment)⟩

/-- A base path is accepted as it is, unless it has whitespace around it. -/
private theorem accepted_iff (formed : IsBasePath basePath) :
    normalizeBasePath basePath = .ok basePath ↔ strip basePath = basePath := by
  obtain ⟨⟨rest, text, single⟩, ends, clean⟩ := formed
  constructor
  · intro accepted
    rcases accepted_cases accepted with ⟨_, rfl⟩ | ⟨_, _, _, _, _, same⟩
    · decide
    · have kept := List.rdropWhile_prefix (fun c => decide (c = '/')) (strip basePath).toList
      have front := (List.dropWhile_sublist (l := basePath.toList) isSpace).length_le
      have back := (List.rdropWhile_prefix isSpace (basePath.toList.dropWhile isSpace)).length_le
      have written : basePath.toList = (strip basePath).toList.rdropWhile fun c => c = '/' :=
        (congrArg String.toList same).trans String.toList_ofList
      have shorter := kept.length_le
      rw [← toList_strip] at back
      rw [← written] at kept shorter
      exact (String.toList_inj.mp (kept.eq_of_length (by omega))).symm
  · intro stripped
    simp only [normalizeBasePath, stripped]
    rcases ends with rfl | ends
    · rfl
    · have other : ¬(basePath = "" ∨ basePath = "/") := by
        rintro (rfl | rfl)
        · cases text
        · exact ends (by decide)
      have double : ¬['/', '/'] <+: basePath.toList := by
        rintro ⟨more, twice⟩
        rw [text] at twice
        rw [← (List.cons.inj twice).2] at single
        exact single rfl
      have whole : (basePath.toList.rdropWhile fun c => c = '/') = basePath.toList := by
        rw [List.rdropWhile_eq_self_iff]
        intro nonempty last
        rw [List.getLast?_eq_getLast_of_ne_nil nonempty] at ends
        exact ends (congrArg some (of_decide_eq_true last))
      rw [if_neg other, if_neg (by simp [text]), if_neg double, if_neg (by simp [clean]), whole, String.ofList_toList]

/-- The page's API prefix from a base path. -/
private theorem api_of_basePath (formed : IsBasePath basePath) (apiBase : Option String)
    (own : ∀ text ∈ apiBase, text = prefixed basePath "/api") :
    (RuntimeConfig.mk (some basePath) apiBase).api = prefixed basePath "/api" := by
  cases apiBase with
  | some text => exact own text rfl
  | none =>
    rcases formed.ends with rfl | ends
    · rfl
    · have other : ¬(basePath = "" ∨ basePath = "/") := by
        obtain ⟨rest, text, _⟩ := formed.starts
        rintro (rfl | rfl)
        · cases text
        · exact ends (by decide)
      have same : Frontend.normalizeBasePath (some basePath) = basePath := by
        simp only [Frontend.normalizeBasePath]
        rw [if_neg other, if_neg ends]
      simp only [RuntimeConfig.api, Option.getD_none, same, prefixed]

/-- The server and the page agree on the API prefix of every accepted base path, also where the page has to compute it. A
base path that the server has normalized is normalized again to itself exactly when no whitespace is at its end. -/
theorem base_path_agreement (accepted : normalizeBasePath value = .ok basePath) :
    IsBasePath basePath ∧
    (∀ apiBase, (∀ text ∈ apiBase, text = prefixed basePath "/api") →
      (RuntimeConfig.mk (some basePath) apiBase).api = prefixed basePath "/api") ∧
    (normalizeBasePath basePath = .ok basePath ↔ strip basePath = basePath) := by
  have formed := isBasePath_of_accepted accepted
  exact ⟨formed, api_of_basePath formed, accepted_iff formed⟩

theorem base_path_agreement_team :
    (RuntimeConfig.mk (some "/team") none).api = "/team/api" ∧ normalizeBasePath "/a /" = .ok "/a " ∧
      ¬normalizeBasePath "/a " = .ok "/a " := by
  have spaced : normalizeBasePath "/a /" = .ok "/a " := by decide
  have team : normalizeBasePath " /team/ " = .ok "/team" := by decide
  refine ⟨(base_path_agreement team).2.1 none nofun, spaced, ?_⟩
  rw [(base_path_agreement spaced).2.2]
  decide

end CliproxyUsage
