import AutomatonSketch.Proofs.SearchOutcome

/-! The work that the search does. Without any bound on its length it comes to an end, and it enters
no state twice at one place of the input; so the bound it is given cuts nothing off. -/

namespace AutomatonSketch

/-- The state of a situation, and how much of the input has been read there. -/
def Situation.place (input : List Char) (s : Situation) : StateKey × Nat :=
  (s.1.key, input.length - s.2.length)

namespace StateIndex

/-- A search that nothing bounds, from its candidates and what has been explored to the accepting run
found, what has been explored then, and every situation entered on the way. Candidates are tried in
turn; what has been explored is not entered again. -/
inductive Tries (states : StateIndex) : List Situation → List Mark → Option (List Situation) →
    List Mark → List Situation → Prop
  | exhausted (explored : List Mark) : Tries states [] explored none explored []
  | skip {s : Situation} {rest entered : List Situation} {before after : List Mark}
      {found : Option (List Situation)} (hold : s.mark ∈ before)
      (hrest : Tries states rest before found after entered) :
      Tries states (s :: rest) before found after entered
  | stop {s : Situation} {rest : List Situation} {before : List Mark} (hnew : s.mark ∉ before)
      (hfinal : s.2 = [] ∧ s.1.isFinal = true) :
      Tries states (s :: rest) before (some [s]) (s.mark :: before) [s]
  | found {s : Situation} {rest path entered : List Situation} {before after : List Mark}
      (hnew : s.mark ∉ before) (hfinal : ¬ (s.2 = [] ∧ s.1.isFinal = true))
      (hmoves : Tries states (states.moves s) (s.mark :: before) (some path) after entered) :
      Tries states (s :: rest) before (some (s :: path)) after (s :: entered)
  | fail {s : Situation} {rest entered entered' : List Situation} {before between after : List Mark}
      {found : Option (List Situation)} (hnew : s.mark ∉ before)
      (hfinal : ¬ (s.2 = [] ∧ s.1.isFinal = true))
      (hmoves : Tries states (states.moves s) (s.mark :: before) none between entered)
      (hrest : Tries states rest between found after entered') :
      Tries states (s :: rest) before found after (s :: (entered ++ entered'))

variable {states : StateIndex} {input : List Char}

namespace Tries

variable {candidates entered : List Situation} {before after : List Mark}
  {found : Option (List Situation)}

/-- The search has one way to go at every point. -/
theorem unique (h : states.Tries candidates before found after entered)
    {found' : Option (List Situation)} {after' : List Mark} {entered' : List Situation}
    (h' : states.Tries candidates before found' after' entered') :
    found = found' ∧ after = after' ∧ entered = entered' := by
  induction h generalizing found' after' entered' with
  | exhausted explored =>
    cases h'
    exact ⟨rfl, rfl, rfl⟩
  | skip hold _ ih =>
    cases h' with
    | skip _ hrest => exact ih hrest
    | stop hnew | found hnew | fail hnew => exact absurd hold hnew
  | stop hnew hfinal =>
    cases h' with
    | skip hold => exact absurd hold hnew
    | stop => exact ⟨rfl, rfl, rfl⟩
    | found _ hnot | fail _ hnot => exact absurd hfinal hnot
  | found hnew hnot _ ih =>
    cases h' with
    | skip hold => exact absurd hold hnew
    | stop _ hfinal => exact absurd hfinal hnot
    | found _ _ hmoves =>
      obtain ⟨hpath, rfl, rfl⟩ := ih hmoves
      obtain rfl := Option.some.inj hpath
      exact ⟨rfl, rfl, rfl⟩
    | fail _ _ hmoves => exact absurd (ih hmoves).1 (Option.some_ne_none _)
  | fail hnew hnot _ _ ih ih' =>
    cases h' with
    | skip hold => exact absurd hold hnew
    | stop _ hfinal => exact absurd hfinal hnot
    | found _ _ hmoves => exact absurd (ih hmoves).1.symm (Option.some_ne_none _)
    | fail _ _ hmoves hrest =>
      obtain ⟨_, rfl, rfl⟩ := ih hmoves
      obtain ⟨rfl, rfl, rfl⟩ := ih' hrest
      exact ⟨rfl, rfl, rfl⟩

/-- What was entered is explored, and nothing else is new. -/
theorem mem_after (h : states.Tries candidates before found after entered) {m : Mark} :
    m ∈ after ↔ m ∈ before ∨ m ∈ entered.map Situation.mark := by
  induction h with
  | exhausted => simp
  | skip _ _ ih => exact ih
  | stop => simp [or_comm]
  | found _ _ _ ih =>
    rw [ih, List.map_cons, List.mem_cons, List.mem_cons, or_assoc, or_left_comm]
  | fail _ _ _ _ ih ih' =>
    rw [ih', ih, List.map_cons, List.map_append, List.mem_cons, List.mem_cons, List.mem_append,
      or_assoc, or_assoc, or_left_comm]

/-- No situation is entered twice, and none that has been explored. -/
theorem nodup (h : states.Tries candidates before found after entered) :
    (entered.map Situation.mark).Nodup ∧ ∀ m ∈ entered.map Situation.mark, m ∉ before := by
  induction h with
  | exhausted => simp
  | skip _ _ ih => exact ih
  | stop hnew => simpa using hnew
  | found hnew _ _ ih =>
    obtain ⟨hnodup, hfresh⟩ := ih
    rw [List.map_cons, List.nodup_cons, List.forall_mem_cons]
    exact ⟨⟨fun hm => hfresh _ hm List.mem_cons_self, hnodup⟩, hnew,
      fun m hm hold => hfresh m hm (List.mem_cons_of_mem _ hold)⟩
  | @fail s rest entered entered' before between after found hnew _ hmoves _ ih ih' =>
    obtain ⟨hnodup, hfresh⟩ := ih
    obtain ⟨hnodup', hfresh'⟩ := ih'
    -- What the failed candidate entered is explored when the next one is tried.
    have hapart : ∀ m ∈ entered'.map Situation.mark,
        m ≠ s.mark ∧ m ∉ before ∧ m ∉ entered.map Situation.mark := by
      intro m hm
      have hnot := mt hmoves.mem_after.mpr (hfresh' m hm)
      rw [List.mem_cons, not_or, not_or] at hnot
      exact ⟨hnot.1.1, hnot.1.2, hnot.2⟩
    rw [List.map_cons, List.map_append, List.nodup_cons, List.forall_mem_cons,
      List.forall_mem_append, List.mem_append, not_or]
    refine ⟨⟨⟨?_, ?_⟩, hnodup.append hnodup' ?_⟩, hnew, ?_, ?_⟩
    · exact fun hm => hfresh _ hm List.mem_cons_self
    · exact fun hm => (hapart _ hm).1 rfl
    · exact fun m hm hm' => (hapart m hm').2.2 hm
    · exact fun m hm hold => hfresh m hm (List.mem_cons_of_mem _ hold)
    · exact fun m hm => (hapart m hm).2.1

theorem within (h : states.Tries candidates before found after entered) (hfiled : states.Filed)
    (hcandidates : ∀ s ∈ candidates, Within states input s) :
    ∀ s ∈ entered, Within states input s := by
  induction h with
  | exhausted => exact hcandidates
  | skip _ _ ih => exact ih (List.forall_mem_cons.mp hcandidates).2
  | stop =>
    exact fun s hs => hcandidates s (List.mem_singleton.mp hs ▸ List.mem_cons_self)
  | found _ _ _ ih =>
    have hs := (List.forall_mem_cons.mp hcandidates).1
    exact List.forall_mem_cons.mpr ⟨hs, ih fun t ht => hs.move hfiled ht⟩
  | fail _ _ _ _ ih ih' =>
    obtain ⟨hs, hrest⟩ := List.forall_mem_cons.mp hcandidates
    exact List.forall_mem_cons.mpr ⟨hs, List.forall_mem_append.mpr
      ⟨ih fun t ht => hs.move hfiled ht, ih' hrest⟩⟩

/-- The run that is found passes situations that were entered, and in that order. -/
theorem sublist (h : states.Tries candidates before found after entered) {path : List Situation}
    (hpath : found = some path) : path.Sublist entered := by
  induction h generalizing path with
  | exhausted => exact absurd hpath (by simp)
  | skip _ _ ih => exact ih hpath
  | stop =>
    obtain rfl := Option.some.inj hpath
    exact List.Sublist.refl _
  | found _ _ _ ih =>
    obtain rfl := Option.some.inj hpath
    exact (ih rfl).cons_cons _
  | fail _ _ _ _ _ ih' =>
    exact ((ih' hpath).trans (List.sublist_append_right _ _)).cons _

theorem isChain (h : states.Tries candidates before found after entered) {path : List Situation}
    (hpath : found = some path) :
    (∃ s ∈ candidates, path.head? = some s) ∧ path.IsChain fun s t => t ∈ states.moves s := by
  induction h generalizing path with
  | exhausted => exact absurd hpath (by simp)
  | skip _ _ ih | fail _ _ _ _ _ ih =>
    obtain ⟨⟨t, ht, hhead⟩, hchain⟩ := ih hpath
    exact ⟨⟨t, List.mem_cons_of_mem _ ht, hhead⟩, hchain⟩
  | stop =>
    obtain rfl := Option.some.inj hpath
    exact ⟨⟨_, List.mem_cons_self, rfl⟩, .singleton _⟩
  | @found s rest path' _ _ _ _ _ _ ih =>
    obtain rfl := Option.some.inj hpath
    obtain ⟨⟨t, ht, hhead⟩, hchain⟩ := ih rfl
    refine ⟨⟨s, List.mem_cons_self, rfl⟩, hchain.cons ?_⟩
    intro t' ht'
    obtain rfl := Option.some.inj (hhead.symm.trans ht')
    exact ht

theorem entered_nodup_places (h : states.Tries candidates before found after entered)
    (hfiled : states.Filed) (hcandidates : ∀ s ∈ candidates, Within states input s) :
    (entered.map (Situation.place input)).Nodup := by
  have hwithin := h.within hfiled hcandidates
  refine (List.Nodup.of_map _ h.nodup.1).map_on ?_
  intro s hs t ht hplace
  obtain ⟨hkey, hread⟩ := Prod.mk.inj hplace
  have hs' := (hwithin s hs).rest.length_le
  have ht' := (hwithin t ht).rest.length_le
  have hleft : s.2.length = t.2.length := by omega
  exact (hwithin s hs).eq_of_mark_eq (hwithin t ht) (Prod.ext hkey hleft)

theorem length_entered_le (h : states.Tries candidates before found after entered)
    (hfiled : states.Filed) (hcandidates : ∀ s ∈ candidates, Within states input s) :
    entered.length ≤ states.searchBound input := by
  have hsubset : (entered.map Situation.mark).toFinset ⊆ states.marks input := by
    intro m hm
    obtain ⟨s, hs, rfl⟩ := List.mem_map.mp (List.mem_toFinset.mp hm)
    exact (h.within hfiled hcandidates s hs).mark_mem
  have hcard := (Finset.card_le_card hsubset).trans (card_marks_le states input)
  rwa [List.toFinset_card_of_nodup h.nodup.1, List.length_map] at hcard

/-- A first candidate that leads to a run leaves no turn to the others. -/
theorem found_first {s : Situation} {path rest : List Situation}
    (h : states.Tries [s] before (some path) after entered) :
    states.Tries (s :: rest) before (some path) after entered := by
  cases h with
  | skip _ hrest | fail _ _ _ hrest => cases hrest
  | stop hnew hfinal => exact .stop hnew hfinal
  | found hnew hfinal hmoves => exact .found hnew hfinal hmoves

theorem fail_first {s : Situation} {rest entered' : List Situation} {between : List Mark}
    (h : states.Tries [s] before none between entered)
    (hrest : states.Tries rest between found after entered') :
    states.Tries (s :: rest) before found after (entered ++ entered') := by
  cases h with
  | skip hold hnone =>
    cases hnone
    exact .skip hold hrest
  | fail hnew hfinal hmoves hnone =>
    cases hnone
    rw [List.append_nil, List.cons_append]
    exact .fail hnew hfinal hmoves hrest

theorem unexplored_card_le (h : states.Tries candidates before found after entered) :
    (states.unexplored input after).card ≤ (states.unexplored input before).card := by
  refine Finset.card_le_card ?_
  intro m hm
  obtain ⟨hmark, hnew⟩ := mem_unexplored.mp hm
  exact mem_unexplored.mpr ⟨hmark, fun hold => hnew (h.mem_after.mpr (.inl hold))⟩

theorem of_firstSuccess {fuel : Nat}
    {search : Situation → List Mark → Option (List Node) × List Mark}
    (hsearch : ∀ s before after nodes, Within states input s →
      (states.unexplored input before).card ≤ fuel → search s before = (nodes, after) →
      ∃ found entered, states.Tries [s] before found after entered ∧
        found.map (List.map Prod.fst) = nodes)
    {nodes : Option (List Node)} (hwithin : ∀ s ∈ candidates, Within states input s)
    (hfuel : (states.unexplored input before).card ≤ fuel)
    (h : firstSuccess search candidates before = (nodes, after)) :
    ∃ found entered, states.Tries candidates before found after entered ∧
      found.map (List.map Prod.fst) = nodes := by
  induction candidates generalizing before with
  | nil =>
    cases h
    exact ⟨none, [], .exhausted _, rfl⟩
  | cons s rest ih =>
    obtain ⟨hs, hrest⟩ := List.forall_mem_cons.mp hwithin
    unfold firstSuccess at h
    split at h
    · rename_i path _ hfirst
      cases h
      obtain ⟨found, entered, htries, hnodes⟩ := hsearch s _ _ _ hs hfuel hfirst
      obtain ⟨path', rfl, -⟩ := Option.map_eq_some_iff.mp hnodes
      exact ⟨some path', entered, htries.found_first, hnodes⟩
    · rename_i between hfirst
      obtain ⟨found, entered, htries, hnone⟩ := hsearch s _ _ _ hs hfuel hfirst
      obtain rfl := Option.map_eq_none_iff.mp hnone
      obtain ⟨found, entered', htries', hnodes⟩ :=
        ih hrest (htries.unexplored_card_le.trans hfuel) h
      exact ⟨found, entered ++ entered', htries.fail_first htries', hnodes⟩

end Tries

/-- With fuel for all that is unexplored, the search is the one that nothing bounds. -/
theorem tries_of_search (hfiled : states.Filed) {fuel : Nat} {s : Situation}
    {before after : List Mark} {nodes : Option (List Node)} (hs : Within states input s)
    (hfuel : (states.unexplored input before).card ≤ fuel)
    (h : states.search fuel s before = (nodes, after)) :
    ∃ found entered, states.Tries [s] before found after entered ∧
      found.map (List.map Prod.fst) = nodes := by
  induction fuel generalizing s before after nodes with
  | zero =>
    cases h
    have hold : s.mark ∈ before := by
      by_contra hnew
      have := unexplored_card_lt hs hnew
      omega
    exact ⟨none, [], .skip hold (.exhausted before), rfl⟩
  | succ fuel ih =>
    unfold search at h
    split at h
    · rename_i hold
      cases h
      exact ⟨none, [], .skip hold (.exhausted before), rfl⟩
    · rename_i hnew
      have hless := unexplored_card_lt hs hnew
      have hmoves {found : Option (List Node)} {after' : List Mark}
          (h : firstSuccess (states.search fuel) (states.moves s) (s.mark :: before) =
            (found, after')) :=
        Tries.of_firstSuccess (fun _ _ _ _ ht hf hsearch => ih ht hf hsearch)
          (fun t ht => hs.move hfiled ht) (by omega) h
      split at h
      · rename_i hfinal
        cases h
        exact ⟨some [s], [s], .stop hnew hfinal, rfl⟩
      · rename_i hfinal
        split at h
        · rename_i path _ hfound
          cases h
          obtain ⟨found, entered, htries, hnodes⟩ := hmoves hfound
          obtain ⟨path', rfl, rfl⟩ := Option.map_eq_some_iff.mp hnodes
          exact ⟨some (s :: path'), s :: entered, .found hnew hfinal htries, rfl⟩
        · rename_i hfailed
          cases h
          obtain ⟨found, entered, htries, hnone⟩ := hmoves hfailed
          obtain rfl := Option.map_eq_none_iff.mp hnone
          exact ⟨none, _, .fail hnew hfinal htries (.exhausted _), rfl⟩

/-- Where the search of an input begins, if there is a start state. -/
def starts (states : StateIndex) (start : StateKey) (input : String) : List Situation :=
  (states.get? start).toList.map (·, input.toList)

theorem within_of_mem_starts (hfiled : states.Filed) {start : StateKey} {input : String}
    {s : Situation} (hs : s ∈ states.starts start input) : Within states input.toList s := by
  obtain ⟨n, hn, rfl⟩ := List.mem_map.mp hs
  have hget : states.get? start = some n := Option.mem_toList.mp hn
  exact ⟨by rwa [hfiled start n hget], List.suffix_refl _⟩

theorem tries_of_run (hfiled : states.Filed) (start : StateKey) (input : String) :
    ∃ found after entered, states.Tries (states.starts start input) [] found after entered ∧
      states.runNondeterministic start input =
        found.elim ⟨false, (states.get? start).toList⟩ fun path => ⟨true, path.map Prod.fst⟩ := by
  cases hstart : states.get? start with
  | none =>
    refine ⟨none, [], [], ?_, ?_⟩
    · rw [starts, hstart]
      exact .exhausted []
    · simp only [runNondeterministic, hstart]
      rfl
  | some n =>
    have hstarts : states.starts start input = [(n, input.toList)] := by rw [starts, hstart]; rfl
    have hs : Within states input.toList (n, input.toList) :=
      within_of_mem_starts hfiled (hstarts ▸ List.mem_singleton_self _)
    have hfuel : (states.unexplored input.toList []).card ≤ states.searchBound input.toList :=
      (Finset.card_le_card Finset.sdiff_subset).trans (card_marks_le states _)
    cases hsearch : states.search (states.searchBound input.toList) (n, input.toList) [] with
    | mk nodes after =>
      obtain ⟨found, entered, htries, rfl⟩ := tries_of_search hfiled hs hfuel hsearch
      refine ⟨found, after, entered, hstarts ▸ htries, ?_⟩
      simp only [runNondeterministic, hstart, hsearch]
      cases found <;> rfl

/-- A search comes to an end without any bound, and in one way only. It enters no state twice after
reading as much of the input, and neither does the run that it shows; so both are no longer than
there are states, times the places of the input. -/
theorem search_enters_once (hfiled : states.Filed) (start : StateKey) (input : String) :
    let bound := states.size * (input.length + 1)
    let place := Situation.place input.toList
    ∃ found after entered, states.Tries (states.starts start input) [] found after entered ∧
      (∀ found' after' entered',
        states.Tries (states.starts start input) [] found' after' entered' →
          found' = found ∧ after' = after ∧ entered' = entered) ∧
      states.runNondeterministic start input =
        found.elim ⟨false, (states.get? start).toList⟩ (fun path => ⟨true, path.map Prod.fst⟩) ∧
      (∀ s ∈ entered, s.1.key ∈ states.keys ∧
        ∃ read ≤ input.length, s.2 = input.toList.drop read ∧ place s = (s.1.key, read)) ∧
      (entered.map place).Nodup ∧ entered.length ≤ bound ∧
      ∀ path, found = some path →
        (∃ s ∈ states.starts start input, path.head? = some s) ∧
          path.IsChain (fun s t => t ∈ states.moves s) ∧
          (path.map place).Nodup ∧ path.length ≤ bound := by
  intro bound place
  obtain ⟨found, after, entered, htries, hrun⟩ := tries_of_run hfiled start input
  have hstarts : ∀ s ∈ states.starts start input, Within states input.toList s :=
    fun s hs => within_of_mem_starts hfiled hs
  have hplaces : (entered.map place).Nodup := htries.entered_nodup_places hfiled hstarts
  have hlength : entered.length ≤ bound := by
    have hle := htries.length_entered_le hfiled hstarts
    rwa [searchBound, String.length_toList] at hle
  refine ⟨found, after, entered, htries, ?_, hrun, ?_, hplaces, hlength, ?_⟩
  · intro found' after' entered' htries'
    exact htries'.unique htries
  · intro s hs
    obtain ⟨hkey, hrest⟩ := htries.within hfiled hstarts s hs
    refine ⟨Table.mem_keys.mpr ⟨s.1, hkey⟩, input.toList.length - s.2.length, ?_, ?_, rfl⟩
    · rw [String.length_toList]
      exact Nat.sub_le _ _
    · exact List.suffix_iff_eq_drop.mp hrest
  · intro path hpath
    have hsublist := htries.sublist hpath
    obtain ⟨hhead, hchain⟩ := htries.isChain hpath
    exact ⟨hhead, hchain, (hsublist.map place).nodup hplaces, hsublist.length_le.trans hlength⟩

theorem search_enters_once_cyclic :
    let key := (Coordinate.of 0 0).key
    cyclic.Filed ∧ ∃ path after entered,
      cyclic.Tries (cyclic.starts key "aaa") [] (some path) after entered ∧
        (cyclic.runNondeterministic key "aaa").traversed = path.map Prod.fst ∧
        (path.map (Situation.place "aaa".toList)).Nodup ∧ path.length ≤ 16 ∧
        entered.length ≤ 16 := by
  intro key
  have hfiled : cyclic.Filed := filed_of_entries (by decide)
  have hbound : cyclic.size * ("aaa".length + 1) = 16 := by decide
  have haccepted : (cyclic.runNondeterministic key "aaa").accepted = true := by decide
  obtain ⟨found, after, entered, htries, -, hrun, -, -, hlength, hshown⟩ :=
    search_enters_once hfiled key "aaa"
  cases found with
  | none => exact absurd (haccepted.symm.trans (congrArg StringTest.accepted hrun)) (by simp)
  | some path =>
    obtain ⟨-, -, hnodup, hpath⟩ := hshown path rfl
    exact ⟨hfiled, path, after, entered, htries, congrArg StringTest.traversed hrun, hnodup,
      hbound ▸ hpath, hbound ▸ hlength⟩

end StateIndex

end AutomatonSketch
