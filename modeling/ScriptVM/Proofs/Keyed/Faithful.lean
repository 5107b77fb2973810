import ScriptVM.Proofs.Keyed.Knowing

/-!
# Hashes are insertion-ordered maps

A client gets from the machine what the ledgers say, whatever the digests are and however many keys
have the same hash, as long as there is fuel for the operations that it does.
-/
namespace ScriptVM.Client

open Run Engine

variable {d : Digests} {m : Machine} {h h' : Heap} {values : List Value} {cs cs' : List Content}
  {o : Operation} {outcome : Outcome Nat} {fuel n : Nat}

/-! ## Values that are made -/

theorem Knows.showsAll {items : List Nat} {keys : List Key} (hc : Knows d h values cs)
    (hkeys : items.mapM (keyAt? cs) = some keys) :
    h.ShowsAll d (items.map (valueAt values)) keys := by
  induction items generalizing keys with
  | nil =>
    cases hkeys
    rfl
  | cons item rest ih =>
    rw [List.mapM_cons] at hkeys
    obtain ⟨key, hkey, hrest⟩ := Option.bind_eq_some_iff.1 hkeys
    obtain ⟨others, hothers, hsame⟩ := Option.bind_eq_some_iff.1 hrest
    cases hsame
    exact ⟨valueAt values item, rest.map (valueAt values), rfl, hc.shows hkey, ih hothers⟩

/-- A value that is made is what is known of it. -/
theorem Knows.make (hc : Knows d h values cs) (datum : Datum Nat) :
    let made := h.alloc (datum.map (valueAt values)).kind
    Knows d made.2 (values ++ [made.1]) (cs ++ [contentOf cs datum]) := by
  intro made
  have hkept := hc.asked (Heap.asked_alloc (d := d) h (datum.map (valueAt values)).kind)
  have hplain := h.plain_alloc (datum.map (valueAt values)).kind
  have hkind := h.kind_alloc (datum.map (valueAt values)).kind
  refine hkept.append ?_ fun l _ place l' hplace hsame => ?_
  · cases datum with
    | tuple items =>
      rw [contentOf]
      split
      · rename_i keys hkeys
        refine ⟨hplain _, items.map (valueAt values), hkind, ?_, hkept.showsAll hkeys⟩
        exact (hc.showsAll hkeys).lt
      · trivial
    | array items => exact ⟨hplain _, .inl ⟨_, hkind⟩⟩
    | hash =>
      refine ⟨⟨⟨hplain _, .inr ⟨_, hkind⟩⟩, ⟨_, Heap.table?_of_kind hkind, Table.follows_empty⟩,
        ?_, ?_⟩, ?_⟩
      all_goals exact List.forall_mem_nil _
    | float x => trivial
    | iterator items => trivial
    | error kind message => trivial
    | module name => trivial
    | _ => exact ⟨hplain _, hkind⟩
  · have hlt := (hc.content place _ hplace).1.plain.lt
    rw [hsame] at hlt
    exact Nat.lt_irrefl _ hlt

/-- A copy has the ledger that there is. -/
theorem Knows.copy {owner : Nat} {l : Ledger Nat} {t : Table} (hc : Knows d h values cs)
    (hl : ledgerAt? cs owner = some l) (ht : t.Follows d (valueAt values) l) :
    let made := h.alloc (.hash t)
    Knows d made.2 (values ++ [made.1]) (cs ++ [.hash l]) := by
  intro made
  have hkept := hc.asked (Heap.asked_alloc (d := d) h (.hash t))
  have hkind := h.kind_alloc (.hash t)
  obtain ⟨hf, hplaces⟩ := hkept.files hl
  have hholds : (Content.hash l).Holds d made.2 values made.1 :=
    ⟨⟨⟨h.plain_alloc _ _, .inr ⟨t, hkind⟩⟩, ⟨t, Heap.table?_of_kind hkind, ht⟩, hf.keys,
      hf.hashable⟩, hplaces⟩
  refine hkept.append (hholds.append [made.1]) fun l _ place l' hplace hsame => ?_
  have hlt := (hc.content place _ hplace).1.plain.lt
  rw [hsame] at hlt
  exact Nat.lt_irrefl _ hlt

/-! ## Operations -/

section asking

variable {α : Type}

/-- What a client gets from a computation that only asks. -/
def settled (give : α → Outcome Value) : Except String α → Outcome Value
  | .ok a => give a
  | .error kind => .failed kind

/-- A computation that only asks brings no value, and leaves what is known. -/
theorem Knows.settle (hc : Knows d m.heap values cs) {x : Run α} {r : Except String α}
    (hx : x.Ends d m r) (give : α → Outcome Value) :
    ∃ h, Client.settle (do return (give (← x), [])) m =
        .ok (settled give r, []) { m with heap := h } ∧ Knows d h (values ++ []) cs := by
  rw [List.append_nil]
  cases r with
  | ok outcome =>
    obtain ⟨h, ha, hx⟩ := hx
    refine ⟨h, ?_, hc.asked ha⟩
    simp only [Client.settle, bind, EStateM.bind, hx]
    rfl
  | error kind =>
    obtain ⟨h, f, ha, hx, rfl⟩ := hx
    refine ⟨h, ?_, hc.asked ha⟩
    simp only [Client.settle, bind, EStateM.bind, hx]
    rfl

end asking

/-- An operation gives what it should, and leaves values that are what is known of them. -/
theorem Knows.perform (hc : Knows d m.heap values cs) (hcs : ∀ c ∈ cs, c.Within n) (hn : n < fuel)
    (hexpected : expected d cs o = some (outcome, cs')) :
    ∃ r more h, Client.settle (Client.perform (withFuel (fuel + 1) d) (valueAt values) o) m =
        .ok (r, more) { m with heap := h } ∧
      Knows d h (values ++ more) cs' ∧
      ∀ value : Nat → Value, (∀ place < values.length, value place = valueAt values place) →
        outcome.map value = r := by
  have hdepth : ∀ {place k}, keyAt? cs place = some k → k.depth < fuel := fun hk =>
    Nat.lt_of_le_of_lt (depth_le_of_keyAt? hcs hk) hn
  have hledger : ∀ {place l}, ledgerAt? cs place = some l →
      l.length ≤ n ∧ ∀ k ∈ l.contents, k.depth < fuel := fun hl =>
    have hwithin := hcs _ (List.mem_of_getElem? (getElem?_of_ledgerAt? hl))
    ⟨hwithin.1, fun k hk => Nat.lt_of_le_of_lt (hwithin.2 k hk) hn⟩
  cases o with
  | make datum =>
    cases hexpected
    exact ⟨.made, _, _, rfl, hc.make datum, fun value _ => rfl⟩
  | copy owner =>
    obtain ⟨l, hl, hsame⟩ := Option.bind_eq_some_iff.1 hexpected
    cases hsame
    obtain ⟨h, t, ha, ht, hcopy⟩ := exists_copy_eq fuel (hc.files hl).1
    refine ⟨.made, _, _, ?_, (hc.asked ha).copy hl ht, fun value _ => rfl⟩
    simp only [Client.settle, Client.perform, bind, EStateM.bind, hcopy]
    rfl
  | assign owner key v =>
    obtain ⟨l, hl, hsame⟩ := Option.bind_eq_some_iff.1 hexpected
    obtain ⟨k, hk, hsame⟩ := Option.bind_eq_some_iff.1 hsame
    obtain ⟨hf, hplaces⟩ := hc.files hl
    split at hsame
    · cases hsame
    rename_i hv
    split at hsame
    · rename_i hhash
      cases hsame
      obtain ⟨h, t, ha, ht, hassign⟩ := exists_assign_eq (a := ⟨k, key, v⟩) hf (hc.shows hk) hhash
        (hdepth hk) (hledger hl).2
      dsimp only at hassign
      have hchanged := (hc.asked ha).assign hl ht (ha.shows (hc.shows hk)) hhash
        ⟨hc.length ▸ lt_of_keyAt? hk, hc.length ▸ Nat.lt_of_not_le hv⟩
      refine ⟨.done, [], ((h.setKind (valueAt values owner) (.hash t)).alloc .none).2, ?_, ?_,
        fun value _ => rfl⟩
      · simp only [Client.settle, Client.perform, bind, EStateM.bind, hassign]
        rfl
      · rw [List.append_nil]
        exact hchanged.asked (Heap.asked_alloc _ .none)
    · rename_i hhash
      cases hsame
      have hx := ends_assign_of_not_isHashable (v := valueAt values v) hf (hc.shows hk)
        (Bool.eq_false_iff.2 hhash) (hdepth hk)
      obtain ⟨h, hsettle, hknows⟩ := hc.settle hx fun _ => .done
      exact ⟨_, _, h, hsettle, hknows, fun value _ => rfl⟩
  | index owner key =>
    obtain ⟨l, hl, hsame⟩ := Option.bind_eq_some_iff.1 hexpected
    obtain ⟨k, hk, hsame⟩ := Option.bind_eq_some_iff.1 hsame
    obtain ⟨hf, hplaces⟩ := hc.files hl
    cases hsame
    by_cases hhash : k.isHashable = true
    · have hx := ends_index hf (hc.shows hk) hhash (hdepth hk) (hledger hl).2
      obtain ⟨h, hsettle, hknows⟩ := hc.settle hx .value
      refine ⟨_, _, h, hsettle, hknows, fun value hvalue => ?_⟩
      rw [if_pos hhash, lookUp]
      cases hlast : l.last? k with
      | none => rfl
      | some a => exact congrArg Outcome.value (hvalue _ (hplaces a (Ledger.mem_of_last? hlast)).2)
    · have hx := ends_index_of_not_isHashable hf (hc.shows hk) (Bool.eq_false_iff.2 hhash) (hdepth hk)
      obtain ⟨h, hsettle, hknows⟩ := hc.settle hx .value
      refine ⟨_, _, h, hsettle, hknows, fun value _ => ?_⟩
      rw [if_neg hhash]
      rfl
  | contains owner key =>
    obtain ⟨l, hl, hsame⟩ := Option.bind_eq_some_iff.1 hexpected
    obtain ⟨k, hk, hsame⟩ := Option.bind_eq_some_iff.1 hsame
    have hf := (hc.files hl).1
    cases hsame
    by_cases hhash : k.isHashable = true
    · have hx := ends_contains hf (hc.shows hk) hhash (hdepth hk) (hledger hl).2
      obtain ⟨h, hsettle, hknows⟩ := hc.settle hx .flag
      rw [bind_assoc] at hsettle
      refine ⟨_, _, h, hsettle, hknows, fun value _ => ?_⟩
      rw [if_pos hhash]
      rfl
    · have hx := ends_contains_of_not_isHashable hf (hc.shows hk) (Bool.eq_false_iff.2 hhash)
        (hdepth hk)
      obtain ⟨h, hsettle, hknows⟩ := hc.settle hx .flag
      rw [bind_assoc] at hsettle
      refine ⟨_, _, h, hsettle, hknows, fun value _ => ?_⟩
      rw [if_neg hhash]
      rfl
  | keys owner =>
    obtain ⟨l, hl, hsame⟩ := Option.bind_eq_some_iff.1 hexpected
    obtain ⟨hf, hplaces⟩ := hc.files hl
    cases hsame
    have hlength := Nat.le_trans (l.length_listed_le d) (hledger hl).1
    have hx := ends_keys hf (Nat.le_trans hlength (Nat.le_of_lt hn))
    obtain ⟨h, hsettle, hknows⟩ := hc.settle hx .values
    rw [bind_assoc] at hsettle
    refine ⟨_, _, h, hsettle, hknows, fun value hvalue => ?_⟩
    refine congrArg Outcome.values ?_
    rw [List.map_map]
    refine List.map_congr_left fun e he => hvalue e.key ?_
    obtain ⟨⟨a, ha, -, hkey⟩, -⟩ :=
      Ledger.exists_of_mem_entries (Ledger.mem_entries_of_mem_listed he)
    rw [← hkey]
    exact (hplaces a ha).1

/-- Operations give what they should, one after the other. -/
theorem Knows.performAll {os : List Operation} {outcomes : List (Outcome Nat)}
    (hc : Knows d m.heap values cs) (hcs : ∀ c ∈ cs, c.Within n) (hn : n + os.length ≤ fuel)
    (hexpected : expectedAll d cs os = some (outcomes, cs')) :
    ∃ values' h, Client.performAll (withFuel (fuel + 1) d) values os m =
        .ok (values', outcomes.map (Outcome.map (valueAt values'))) { m with heap := h } ∧
      Knows d h values' cs' ∧ (∀ c ∈ cs', c.Within fuel) ∧ values <+: values' := by
  induction os generalizing m values cs n outcomes with
  | nil =>
    cases hexpected
    exact ⟨values, m.heap, rfl, hc, fun c hmem => (hcs c hmem).mono (Nat.le_of_add_right_le hn),
      List.prefix_rfl⟩
  | cons o os ih =>
    obtain ⟨⟨outcome, known⟩, hfirst, hrest⟩ := Option.bind_eq_some_iff.1 hexpected
    obtain ⟨⟨others, known'⟩, hothers, hsame⟩ := Option.bind_eq_some_iff.1 hrest
    cases hsame
    rw [List.length_cons] at hn
    have hfuel : n < fuel := by omega
    obtain ⟨r, more, h, hperform, hknows, hgives⟩ := hc.perform hcs hfuel hfirst
    obtain ⟨values', h', hperforms, hknows', hbounds, hprefix⟩ :=
      ih (m := { m with heap := h }) hknows (within_of_expected hcs hfirst) (by omega) hothers
    have hkept : values <+: values' := (List.prefix_append values more).trans hprefix
    have hgiven : outcome.map (valueAt values') = r := by
      refine hgives _ fun place hplace => ?_
      obtain ⟨rest, rfl⟩ := hkept
      exact valueAt_append hplace
    refine ⟨values', h', ?_, hknows', hbounds, hkept⟩
    rw [Client.performAll]
    simp only [bind, EStateM.bind, hperform, hperforms, List.map_cons, hgiven]
    rfl

/-- Hashes are insertion-ordered maps. Whatever a client does with Hashes and keys, on whatever
machine and with whatever digests, it gets what the ledgers say: the value that was assigned last
under an equal key, or a failure when there is none; the first of equal keys, listed by hashes in the
order in which they came up; and a copy goes on by itself. In the end every Hash has the keys that
are listed, counts them, and tells each from the others. -/
theorem performAll_eq (d : Digests) (m : Machine) (given : List Value) {os : List Operation}
    {outcomes : List (Outcome Nat)} {fuel : Nat}
    (hexpected : expectedAll d (given.map fun _ => .other) os = some (outcomes, cs))
    (hfuel : os.length < fuel) :
    ∃ values m', performAll (withFuel fuel d) given os m =
        .ok (values, outcomes.map (Outcome.map (valueAt values))) m' ∧
      ∀ place l, ledgerAt? cs place = some l →
        ∃ t, m'.heap.table? (valueAt values place) = some t ∧
          t.keys = (l.listed d).map (fun e => valueAt values e.key) ∧ t.size = t.keys.length ∧
          t.keys.Pairwise fun a b => ∃ m'', (withFuel fuel d).equals a b m' = .ok false m'' := by
  obtain ⟨fuel, rfl⟩ := Nat.exists_eq_add_one_of_ne_zero (Nat.ne_zero_of_lt hfuel)
  have hother : ∀ (place : Nat) (c : Content),
      (given.map fun _ => Content.other)[place]? = some c → c = .other := by
    intro place c hplace
    rw [List.getElem?_map] at hplace
    obtain ⟨-, -, rfl⟩ := Option.map_eq_some_iff.1 hplace
    rfl
  have hstart : Knows d m.heap given (given.map fun _ => .other) := by
    refine ⟨by simp, fun place c hplace => ?_, fun place place' l l' hplace => ?_⟩
    · obtain rfl := hother place c hplace
      trivial
    · cases hother place _ hplace
  have hbound : ∀ c ∈ given.map fun _ => Content.other, c.Within 0 := by
    intro c hc
    obtain ⟨v, -, rfl⟩ := List.mem_map.1 hc
    trivial
  have hsteps : 0 + os.length ≤ fuel := by omega
  obtain ⟨values, h, hperform, hknows, hbounds, -⟩ := hstart.performAll hbound hsteps hexpected
  refine ⟨values, { m with heap := h }, hperform, fun place l hl => ?_⟩
  obtain ⟨hf, -⟩ := hknows.files hl
  obtain ⟨t, ht, hfollows⟩ := hf.table
  refine ⟨t, ht, hfollows.keys, hfollows.size.trans (List.length_map _).symm, ?_⟩
  have hwithin := hbounds _ (List.mem_of_getElem? (getElem?_of_ledgerAt? hl))
  have hdifferent := List.pairwise_map.1 (l.nodup_content_listed d)
  rw [hfollows.keys, List.pairwise_map]
  refine hdifferent.imp_of_mem fun {e e'} he he' hne => ?_
  have hentry := Ledger.mem_entries_of_mem_listed he
  have hcontent := Ledger.content_mem_contents hentry
  obtain ⟨h', -, hequals⟩ := ends_equals (m := { m with heap := h }) (hf.shows_entry hentry)
    (hf.shows_entry (Ledger.mem_entries_of_mem_listed he')) (hf.hashable _ hcontent)
    (Nat.lt_succ_of_le (hwithin.2 _ hcontent))
  exact ⟨_, hequals.trans (by rw [decide_eq_false hne])⟩

/-- Here all texts have the same digest, which is the hash of the number one and of the true flag,
too. The second text is the first one again, and the copy does not see what comes after it. -/
theorem performAll_eq_collisions :
    let os : List Operation := [.make .hash, .make (.string "a"), .make (.integer 1),
      .make (.bool true), .make (.string "a"), .make (.array []), .assign 0 1 2, .assign 0 3 3,
      .copy 0, .assign 0 4 5, .assign 0 5 2, .index 0 1, .index 6 4, .index 0 2, .contains 6 3,
      .keys 0]
    ∃ values m', performAll (withFuel 17 ⟨fun _ => 1, fun _ => 1⟩) [] os (.new .standard) =
      .ok (values, [.made, .made, .made, .made, .made, .made, .done, .done, .made, .done,
        .failed "UnhashableTypeError", .value (valueAt values 5), .value (valueAt values 2),
        .failed "KeyNotFoundError", .flag true,
        .values [valueAt values 1, valueAt values 3]]) m' := by
  intro os
  have hexpected : expectedAll ⟨fun _ => 1, fun _ => 1⟩ [] os = some (_, _) := rfl
  have hfuel : os.length < 17 := by decide
  obtain ⟨values, m', hperform, -⟩ :=
    performAll_eq ⟨fun _ => 1, fun _ => 1⟩ (.new .standard) [] hexpected hfuel
  exact ⟨values, m', hperform⟩

end ScriptVM.Client
