import Auger.Console

set_option autoImplicit false

/-! The statements the wire front end runs whose texts lead with a mutation. -/

namespace Auger

open General Text

section
variable {isAlphanumeric : Char → Bool}

theorem not_qualifier_before {before after : Text} (idents : ∀ c ∈ before, identChar c = true) (present : before ≠ [])
    (called : callQualifier isAlphanumeric after = true) : callQualifier isAlphanumeric (before ++ after) = false := by
  rw [callQualifier, Bool.and_eq_false_iff]
  left
  apply Bool.eq_false_iff.mpr
  intro begins
  have long := congrArg List.length (catalog_word begins)
  have own := congrArg List.length (catalog_word (Bool.and_eq_true_iff.mp called).1)
  rw [List.takeWhile_append_of_pos idents, lower, List.length_map, List.length_append] at long
  rw [lower, List.length_map] at own
  exact present (List.length_eq_zero_iff.mp (by omega))

theorem strip_before {before after : Text} (idents : ∀ c ∈ before, identChar c = true)
    (called : callQualifier isAlphanumeric after = true) :
    stripPgCatalogPrefix isAlphanumeric (before ++ after) =
      before ++ stripPgCatalogPrefix isAlphanumeric (after.drop 11) := by
  induction before with
  | nil =>
      cases after with
      | nil => cases called
      | cons c rest => rw [List.nil_append, List.nil_append, strip_cons, called, if_pos rfl, List.drop_succ_cons]
  | cons c before ih =>
      have other := not_qualifier_before idents (List.cons_ne_nil _ _) called
      rw [List.cons_append] at other ⊢
      rw [strip_cons, other, if_neg Bool.false_ne_true, ih fun d member => idents d (List.mem_cons_of_mem _ member),
        List.cons_append]

theorem leadingWord_stripped (ascii : AgreesOnAscii isAlphanumeric)
    (space : ∀ c, isRustWhitespace c = true → isAlphanumeric c = false) {before after : Text}
    (idents : ∀ c ∈ before, identChar c = true) (called : callQualifier isAlphanumeric after = true) :
    leadingWord (stripPgCatalogPrefix isAlphanumeric (before ++ after)) =
      before ++ (after.drop 11).takeWhile identChar := by
  have call := (Bool.and_eq_true_iff.mp called).2
  rw [strip_before idents called]
  cases before with
  | nil => exact (stripped_call ascii space call).1
  | cons c before =>
      have solid : isRustWhitespace c = false := by
        apply Bool.eq_false_iff.mpr
        intro blank
        have noIdent := identChar_of_isRustWhitespace blank
        rw [idents c List.mem_cons_self] at noIdent
        cases noIdent
      rw [List.cons_append, leadingWord_here solid, ← List.cons_append, List.takeWhile_append_of_pos idents,
        call_ident ascii call]

theorem mutation_no_underscore {word : Text} (mutates : String.ofList (upper word) ∈ mutations) : '_' ∉ lower word := by
  have spelled : ∀ m ∈ mutations, '_' ∉ m.toList := by decide
  intro inside
  have raised : '_' ∈ upper (lower word) := List.mem_map.mpr ⟨'_', inside, rfl⟩
  rw [upper_lower] at raised
  exact spelled _ mutates (by rwa [String.toList_ofList])

theorem mutation_no_relation {word : Text} (mutates : String.ofList (upper word) ∈ mutations) :
    isRelation word = false := by
  have named : ∀ r ∈ pgCatalogRelations, '_' ∈ r.toList := by decide
  apply Bool.eq_false_iff.mpr
  intro relation
  obtain ⟨r, listed, same⟩ := List.any_eq_true.mp relation
  exact mutation_no_underscore mutates (by rw [beq_iff_eq.mp same]; exact named r listed)

theorem no_mutation_before {before after : Text} (idents : ∀ c ∈ before, identChar c = true)
    (called : callQualifier isAlphanumeric after = true) :
    String.ofList (upper ((before ++ after).takeWhile identChar)) ∉ mutations := by
  intro mutates
  apply mutation_no_underscore mutates
  have word := catalog_word (Bool.and_eq_true_iff.mp called).1
  rw [List.takeWhile_append_of_pos idents, lower, List.map_append]
  exact List.mem_append_right _ (word ▸ by decide : '_' ∈ lower (after.takeWhile identChar))

theorem identChar_toUpper (c : Char) : identChar c.toUpper = identChar c := by
  rw [← identChar_toLower, Char.toLower_toUpper_eq_toLower, identChar_toLower]

theorem takeWhile_firstWord (t : Text) : (firstWord (upper t)).takeWhile identChar = upper (leadingWord t) := by
  have narrower : ∀ c, identChar c = true → (!isRustWhitespace c) = true := by
    intro c ident
    rw [Bool.not_eq_true']
    apply Bool.eq_false_iff.mpr
    intro blank
    rw [identChar_of_isRustWhitespace blank] at ident
    cases ident
  have both : (fun c => decide (identChar c = true ∧ (!isRustWhitespace c) = true)) = identChar := by
    funext c
    rw [Bool.eq_iff_iff, decide_eq_true_iff]
    exact ⟨And.left, fun ident => ⟨ident, narrower c ident⟩⟩
  have letters : identChar ∘ Char.toUpper = identChar := funext identChar_toUpper
  rw [firstWord_upper, upper, upper, List.takeWhile_map, letters, firstWord, leadingWord, List.takeWhile_takeWhile, both]

theorem keyword_no_mutation {t : Text} {keyword : String} (first : String.ofList (firstWord (upper t)) = keyword)
    (known : keyword ∈ "SHOW" :: sessionTags.map Prod.fst) : ¬LeadsWith mutations t := by
  have apart : ∀ k ∈ "SHOW" :: sessionTags.map Prod.fst, String.ofList (k.toList.takeWhile identChar) ∉ mutations := by
    decide
  intro leads
  apply apart keyword known
  rw [← first, String.toList_ofList, takeWhile_firstWord]
  exact leads

theorem keyword_no_dot {t : Text} {keyword : String} (first : String.ofList (firstWord (upper t)) = keyword)
    (known : keyword ∈ "SHOW" :: sessionTags.map Prod.fst ++ mutations) : '.' ∉ firstWord (upper t) := by
  have plain : ∀ k ∈ "SHOW" :: sessionTags.map Prod.fst ++ mutations, '.' ∉ k.toList := by decide
  have none := plain keyword known
  rwa [← first, String.toList_ofList] at none

theorem dot_firstWord {before after : Text} (idents : ∀ c ∈ before, identChar c = true)
    (called : callQualifier isAlphanumeric after = true)
    (solid : ∀ c, (before ++ after).head? = some c → isRustWhitespace c = false) :
    '.' ∈ firstWord (upper (before ++ after)) := by
  obtain ⟨m, split, named⟩ := qualifier_split (Bool.and_eq_true_iff.mp called).1
  have word : ∀ c ∈ before ++ m, (!isRustWhitespace c) = true := by
    intro c inside
    rw [Bool.not_eq_true']
    apply Bool.eq_false_iff.mpr
    intro blank
    have noIdent := identChar_of_isRustWhitespace blank
    rw [(List.mem_append.mp inside).elim (idents c) (named c)] at noIdent
    cases noIdent
  rw [firstWord_upper, firstWord, trimStart_of_first solid, split, ← List.append_assoc,
    List.takeWhile_append_of_pos word, List.takeWhile_cons_of_pos (by decide)]
  exact List.mem_map.mpr ⟨'.', by simp, rfl⟩

/-- A statement that is neither acknowledged nor a SHOW is run, with its catalog names
rewritten where it names the catalog. -/
theorem handedText_run {sql t : Text} (trimmed : trim (trimSemicolons (trim sql)) = t) (present : t ≠ [])
    (other : String.ofList (firstWord (upper t)) ∉ "SHOW" :: sessionTags.map Prod.fst) :
    handedText isAlphanumeric sql = some
      (if String.ofList (firstWord (upper t)) ∉ mutations ∧ (upper t).contains "PG_" ∧
          rewriteCatalog isAlphanumeric t ≠ t then rewriteCatalog isAlphanumeric t else sql) := by
  have untagged : sessionTags.lookup (String.ofList (firstWord (upper t))) = none := by
    rw [List.lookup_eq_none_iff]
    intro entry listed
    rw [bne_iff_ne]
    rintro same
    exact other (List.mem_cons_of_mem _ (same ▸ List.mem_map_of_mem listed))
  have noShow : String.ofList (firstWord (upper t)) ≠ "SHOW" := fun same => other (same ▸ List.mem_cons_self)
  rw [handedText, intercept]
  dsimp only
  rw [trimmed, if_neg present, untagged]
  dsimp only
  rw [if_neg noShow]
  by_cases mutates : String.ofList (firstWord (upper t)) ∈ mutations
  · rw [if_pos mutates, if_neg fun both => both.1 mutates]
  · rw [if_neg mutates]
    by_cases catalog : (upper t).contains "PG_"
    · by_cases changed : rewriteCatalog isAlphanumeric t ≠ t
      · rw [if_pos catalog, if_pos changed, if_pos ⟨mutates, catalog, changed⟩]
      · rw [if_pos catalog, if_neg changed, if_neg fun all => changed all.2.2]
    · rw [if_neg catalog, if_neg fun all => catalog all.2.1]

theorem qualified_leads {t : Text} (leads : LeadsWith mutations t) : LeadsWith mutations (qualifyBarePgCatalog t) := by
  rw [LeadsWith] at leads ⊢
  obtain kept | ⟨relation, -⟩ := (@qualifyLoop_begins ' ' (by decide) t).1
  · rwa [qualifyBarePgCatalog, kept]
  · rw [mutation_no_relation leads] at relation
    cases relation

variable (ascii : AgreesOnAscii isAlphanumeric)
variable (space : ∀ c, isRustWhitespace c = true → isAlphanumeric c = false)

include ascii space

theorem rewritten_leads {c : Char} {rest : Text} (here : isRustWhitespace c = false)
    (leads : LeadsWith mutations (c :: rest)) : LeadsWith mutations (rewriteCatalog isAlphanumeric (c :: rest)) := by
  rw [rewriteCatalog]
  apply qualified_leads
  split_ifs with catalog
  · rw [LeadsWith] at leads ⊢
    obtain same | ⟨before, after, split, idents, called, -⟩ := (strip_begins ascii space here rest).1
    · rwa [same]
    · rw [leadingWord_here here, split] at leads
      exact absurd leads (no_mutation_before idents called)
  · exact leads

/-- Exactly the statements that lead with a mutation, or come to, are handed over so. -/
theorem handed_mutates_iff (sql : Text) :
    (∃ text, handedText isAlphanumeric sql = some text ∧ LeadsWith mutations text) ↔
      LeadsWith mutations sql ∨ QualifiesTo isAlphanumeric mutations sql := by
  constructor
  · rintro ⟨text, handed, leads⟩
    exact handed_leads ascii space (by decide) (by decide) handed leads
  generalize trimmed : trim (trimSemicolons (trim sql)) = t
  rintro (leads | ⟨before, after, split, idents, called, mutates⟩)
  · have trimmedLeads : LeadsWith mutations t := by
      rw [LeadsWith, ← trimmed, leadingWord_trimmed]
      exact leads
    cases t with
    | nil => exact absurd trimmedLeads (by decide)
    | cons c rest =>
        have here := (trimmed_head trimmed).1
        have handed := @handedText_run isAlphanumeric sql _ trimmed (List.cons_ne_nil _ _)
          fun known => keyword_no_mutation rfl known trimmedLeads
        refine ⟨_, handed, ?_⟩
        split_ifs
        · exact rewritten_leads ascii space here trimmedLeads
        · exact leads
  · rw [trimmed] at split
    have present : t ≠ [] := by
      rintro rfl
      rw [(List.append_eq_nil_iff.mp split.symm).2] at called
      cases called
    obtain ⟨c, rest, shape⟩ := List.exists_cons_of_ne_nil present
    have here : isRustWhitespace c = false := (trimmed_head (trimmed.trans shape)).1
    have dot : '.' ∈ firstWord (upper t) := by
      rw [split] at shape ⊢
      exact dot_firstWord idents called fun d first => by
        rw [shape, List.head?_cons] at first
        rwa [← Option.some.inj first]
    have catalog : (upper t).contains "PG_CATALOG." := by
      rw [split, upper, List.map_append]
      exact (contains_of_qualifier called).trans (List.suffix_append _ _).isInfix
    have rewrites : LeadsWith mutations (rewriteCatalog isAlphanumeric t) := by
      rw [rewriteCatalog, if_pos catalog]
      apply qualified_leads
      rw [LeadsWith, split, leadingWord_stripped ascii space idents called]
      exact mutates
    have plain : ¬LeadsWith mutations t := by
      rw [LeadsWith, shape, leadingWord_here here, ← shape, split]
      exact no_mutation_before idents called
    have changed : rewriteCatalog isAlphanumeric t ≠ t := by
      intro same
      rw [same] at rewrites
      exact plain rewrites
    have handed := @handedText_run isAlphanumeric sql t trimmed present fun known =>
      keyword_no_dot rfl (List.mem_append_left mutations known) dot
    rw [if_pos ⟨fun known => keyword_no_dot rfl (List.mem_append_right _ known) dot, contains_pg catalog, changed⟩]
      at handed
    exact ⟨_, handed, rewrites⟩

end

section
variable {isAlphanumeric : Char → Bool} {σ : Type}

/-- What a run has handed to the engine is what its statements call for. -/
theorem run_calls (ctx : SessionContext σ) (session : σ) (schedule : List (Nat × Message)) :
    ∀ call ∈ (Schedule.run (Server.step isAlphanumeric ctx) (.start session) schedule).calls,
      call.handed = handedText isAlphanumeric call.statement ∧
        ∃ sent ∈ schedule, call.statement ∈ sent.2.statements := by
  have kept : ∀ (server : Server σ) (sent : Nat × Message),
      (∀ call ∈ server.calls, call.handed = handedText isAlphanumeric call.statement ∧
        ∃ sent ∈ schedule, call.statement ∈ sent.2.statements) → sent ∈ schedule →
      ∀ call ∈ (server.step isAlphanumeric ctx sent).calls, call.handed = handedText isAlphanumeric call.statement ∧
        ∃ sent ∈ schedule, call.statement ∈ sent.2.statements := by
    intro server sent before among call member
    obtain earlier | now := List.mem_append.mp member
    · exact before call earlier
    · obtain ⟨inside, handed⟩ := doQuery_calls server.session sent.2 call now
      exact ⟨handed, sent, among, inside⟩
  refine Schedule.run_invariant kept ?_ (Schedule.guarded_of_forall fun sent member _ => member)
  intro call member
  cases member

theorem run_readOnly_iff (ctx : SessionContext σ) (ascii : AgreesOnAscii isAlphanumeric)
    (space : ∀ c, isRustWhitespace c = true → isAlphanumeric c = false) (session : σ)
    (schedule : List (Nat × Message)) :
    ReadOnly (Schedule.run (Server.step isAlphanumeric ctx) (.start session) schedule).calls ↔
      ∀ call ∈ (Schedule.run (Server.step isAlphanumeric ctx) (.start session) schedule).calls,
        ¬LeadsWith mutations call.statement ∧ ¬QualifiesTo isAlphanumeric mutations call.statement := by
  refine forall₂_congr fun call member => ?_
  have mutates := handed_mutates_iff ascii space call.statement
  rw [← (run_calls ctx session schedule call member).1] at mutates
  rw [← not_or, ← mutates]
  constructor
  · rintro ⟨none, -⟩ ⟨text, handed, leads⟩
    exact none text handed leads
  · intro none
    exact ⟨fun text handed leads => none ⟨text, handed, leads⟩, fun leads => absurd (mutates.mpr (.inl leads)) none⟩

/-- Where the engine drops no relation for the statements handed over, a run drops none. -/
theorem run_views (ctx : SessionContext σ) (views : σ → Set String) (session : σ) {schedule : List (Nat × Message)}
    (ddl : ∀ s text, ¬LeadsWith ("CREATE" :: mutations) text → ¬SkipsAhead text → views s ⊆ views (ctx.sql s text).1)
    (harmless : ∀ sent ∈ schedule, ∀ statement ∈ sent.2.statements, ∀ text,
      handedText isAlphanumeric statement = some text →
        ¬LeadsWith ("CREATE" :: mutations) text ∧ ¬SkipsAhead text) :
    views session ⊆ views (Schedule.run (Server.step isAlphanumeric ctx) (.start session) schedule).session := by
  have kept : ∀ server sent, views session ⊆ views server.session →
      (∀ statement ∈ sent.2.statements, ∀ text, handedText isAlphanumeric statement = some text →
        ¬LeadsWith ("CREATE" :: mutations) text ∧ ¬SkipsAhead text) →
      views session ⊆ views (Server.step isAlphanumeric ctx server sent).session := by
    intro server sent before each
    have keeps : ∀ statement ∈ sent.2.statements, ∀ s text,
        handedText isAlphanumeric statement = some text →
          views session ⊆ views s → views session ⊆ views (ctx.sql s text).1 := by
      intro statement inside s text handed held
      obtain ⟨noLead, noSkip⟩ := each statement inside text handed
      exact held.trans (ddl s text noLead noSkip)
    exact doQuery_session keeps before
  exact Schedule.run_invariant kept (Set.Subset.refl _)
    (Schedule.guarded_of_forall fun sent member _ => harmless sent member)

/-- A run is read-only exactly when no statement it has reached leads with a mutation, or comes
to. In a run of messages that avoid the mutations none is handed over; and where moreover no
statement creates a relation or begins with what the engine skips, the relations of the
catalog stay. -/
theorem gateway_readOnly (ctx : SessionContext σ) (ascii : AgreesOnAscii isAlphanumeric)
    (space : ∀ c, isRustWhitespace c = true → isAlphanumeric c = false) (session : σ)
    (schedule : List (Nat × Message)) :
    (ReadOnly (Schedule.run (Server.step isAlphanumeric ctx) (.start session) schedule).calls ↔
      ∀ call ∈ (Schedule.run (Server.step isAlphanumeric ctx) (.start session) schedule).calls,
        ¬LeadsWith mutations call.statement ∧ ¬QualifiesTo isAlphanumeric mutations call.statement) ∧
      ((∀ sent ∈ schedule, sent.2.Avoids isAlphanumeric mutations) →
        ReadOnly (Schedule.run (Server.step isAlphanumeric ctx) (.start session) schedule).calls ∧
          ∀ views : σ → Set String,
            (∀ session text, ¬LeadsWith ("CREATE" :: mutations) text → ¬SkipsAhead text →
              views session ⊆ views (ctx.sql session text).1) →
            (∀ sent ∈ schedule, sent.2.Avoids isAlphanumeric ["CREATE"] ∧
              ∀ statement ∈ sent.2.statements, ¬SkipsAhead statement) →
            views session ⊆
              views (Schedule.run (Server.step isAlphanumeric ctx) (.start session) schedule).session) := by
  refine ⟨run_readOnly_iff ctx ascii space session schedule, fun quiet => ⟨?_, fun views ddl plain => ?_⟩⟩
  · refine (run_readOnly_iff ctx ascii space session schedule).mpr fun call member => ?_
    obtain ⟨-, sent, among, inside⟩ := run_calls ctx session schedule call member
    exact quiet sent among call.statement inside
  · refine run_views ctx views session ddl fun sent member statement inside text handed => ?_
    refine ⟨fun leads => ?_,
      fun skips => (plain sent member).2 statement inside (handed_skips ascii space handed skips)⟩
    obtain created | mutates := List.mem_cons.mp leads
    · have creates : LeadsWith ["CREATE"] text := List.mem_singleton.mpr created
      obtain ⟨noLead, noQualifier⟩ := (plain sent member).1 statement inside
      exact (handed_leads ascii space (by decide) (by decide) handed creates).elim noLead noQualifier
    · obtain ⟨noLead, noQualifier⟩ := quiet sent member statement inside
      exact (handed_leads ascii space (by decide) (by decide) handed mutates).elim noLead noQualifier

theorem not_qualifies {words : List String} {sql : Text}
    (plain : (trim (trimSemicolons (trim sql))).all (fun c => c.toLower != 'p') = true) :
    ¬QualifiesTo isAlphanumeric words sql := by
  rintro ⟨before, after, split, -, called, -⟩
  cases after with
  | nil => cases called
  | cons c rest =>
      have other := List.all_eq_true.mp plain c (by simp [split])
      rw [not_qualifier_of_head (bne_iff_ne.mp other)] at called
      cases called

end

/-- A session that holds views, and drops one. -/
def viewSession : SessionContext (List String) where
  sql := fun views text =>
    if text = "DROP VIEW pg_catalog.pg_class".toList then (views.erase "pg_class", .ok ()) else (views, .ok ())

/-- Two clients, that ask for rows and for a variable. -/
def reading : List (Nat × Message) :=
  [(0, .extended "SELECT 1".toList 0), (1, .extended "  show timezone;".toList 0),
    (0, .extended "SELECT $1".toList 1)]

theorem reading_avoids {words : List String} (select : "SELECT" ∉ words) (shown : "SHOW" ∉ words) :
    ∀ sent ∈ reading, sent.2.Avoids Char.isAlphanum words := by
  intro sent member statement inside
  simp only [reading, List.mem_cons, List.not_mem_nil, or_false] at member
  obtain rfl | rfl | rfl := member
  · rw [List.mem_singleton.mp inside]
    exact ⟨fun leads => absurd leads select, not_qualifies rfl⟩
  · rw [List.mem_singleton.mp inside]
    exact ⟨fun leads => absurd leads shown, not_qualifies rfl⟩
  · cases inside

theorem gateway_readOnly_reading :
    ReadOnly (Schedule.run (Server.step Char.isAlphanum viewSession) (.start ["pg_class"]) reading).calls ∧
      {"pg_class"} ⊆ {v | v ∈
        (Schedule.run (Server.step Char.isAlphanum viewSession) (.start ["pg_class"]) reading).session} := by
  have space : ∀ c, isRustWhitespace c = true → c.isAlphanum = false := by
    intro c blank
    have noIdent := identChar_of_isRustWhitespace blank
    rw [identChar, Bool.or_eq_false_iff] at noIdent
    exact noIdent.1
  obtain ⟨readOnly, stay⟩ := (gateway_readOnly viewSession (fun _ _ => rfl) space ["pg_class"] reading).2
    (reading_avoids (by decide) (by decide))
  refine ⟨readOnly, fun v member => stay (fun views => {v | v ∈ views}) ?_ ?_ (by simpa using member)⟩
  · intro views text noLead _
    rw [viewSession]
    dsimp only
    rw [if_neg]
    rintro rfl
    exact noLead (by decide)
  · intro sent member
    refine ⟨reading_avoids (by decide) (by decide) sent member, ?_⟩
    intro statement inside
    simp only [reading, List.mem_cons, List.not_mem_nil, or_false] at member
    obtain rfl | rfl | rfl := member
    · rw [List.mem_singleton.mp inside]
      exact not_skipsAhead (c := 'S') rfl (by decide)
    · rw [List.mem_singleton.mp inside]
      exact not_skipsAhead (c := 's') rfl (by decide)
    · cases inside

/-- One client drops a view of the catalog for all. -/
theorem gateway_drops :
    ¬ReadOnly (Schedule.run (Server.step Char.isAlphanum viewSession) (.start ["pg_class"])
      [(0, .extended "DROP VIEW pg_catalog.pg_class".toList 0)]).calls ∧
      "pg_class" ∉ (Schedule.run (Server.step Char.isAlphanum viewSession) (.start ["pg_class"])
        [(0, .extended "DROP VIEW pg_catalog.pg_class".toList 0)]).session := by
  constructor
  · intro readOnly
    obtain ⟨handed, -⟩ := readOnly ⟨"DROP VIEW pg_catalog.pg_class".toList,
      some "DROP VIEW pg_catalog.pg_class".toList, .ok .query⟩ List.mem_cons_self
    exact handed _ rfl (by decide)
  · decide

end Auger
