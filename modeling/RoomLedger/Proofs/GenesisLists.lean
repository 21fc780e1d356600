import RoomLedger.Proofs.GenesisState

namespace RoomLedger.Genesis

variable {g : Genesis} {known : List String} {sum : Shares} {a : GenesisAccount} {name : String}
  {accounts past rest : List GenesisAccount}

-- The check goes through the list one by one and knows what came before; these conditions are about
-- the list as a whole.
structure Sensible (g : Genesis) : Prop where
  symbol : g.coreAsset.symbol ≠ ""
  named : ∀ a ∈ g.accounts, Operation.isAccountName a.name = true
  distinct : (g.accounts.map GenesisAccount.name).Nodup
  nonneg : ∀ a ∈ g.accounts, 0 ≤ a.balance
  bounded : g.granted ≤ maxSupply.toInt

def totalOf (accounts : List GenesisAccount) : Int := (accounts.map fun a => a.balance.toInt).sum

theorem totalOf_cons (a : GenesisAccount) (rest : List GenesisAccount) :
    totalOf (a :: rest) = a.balance.toInt + totalOf rest := List.sum_cons

theorem totalOf_append (past rest : List GenesisAccount) :
    totalOf (past ++ rest) = totalOf past + totalOf rest := by
  rw [totalOf, List.map_append, List.sum_append]
  rfl

theorem totalOf_nonneg (nonneg : ∀ a ∈ accounts, 0 ≤ a.balance.toInt) : 0 ≤ totalOf accounts := by
  refine List.sum_nonneg fun amount listed => ?_
  obtain ⟨a, member, rfl⟩ := List.mem_map.mp listed
  exact nonneg a member

-- The bound on the supply keeps every sum in the range of an amount.
theorem toInt_add_of_bounded (nonneg : 0 ≤ sum.toInt) (paid : 0 ≤ a.balance.toInt)
    (bounded : sum.toInt + a.balance.toInt ≤ maxSupply.toInt) :
    Shares.Fits (sum.toInt + a.balance.toInt) ∧ (sum + a.balance).toInt = sum.toInt + a.balance.toInt := by
  have fits : Shares.Fits (sum.toInt + a.balance.toInt) := by
    rw [Shares.toInt_maxSupply] at bounded
    unfold Shares.Fits Shares.minValue Shares.maxValue
    omega
  exact ⟨fits, Shares.toInt_add_of_fits fits⟩

theorem checkAccount_eq_ok_iff {result : List String × Shares} (nonneg : 0 ≤ sum.toInt) :
    checkAccount (known, sum) a = .ok result ↔
      (Operation.isAccountName a.name = true ∧ a.name ∉ known ∧ 0 ≤ a.balance.toInt ∧
        sum.toInt + a.balance.toInt ≤ maxSupply.toInt) ∧ result = (a.name :: known, sum + a.balance) := by
  constructor
  · intro checked
    obtain ⟨paid, added, bounded⟩ := checkAccount_eq_ok checked
    obtain ⟨names, total⟩ := result
    dsimp only at added bounded
    have exact := (Shares.addExact?_eq_some_iff.mp added).2
    unfold checkAccount at checked
    split at checked
    · cases checked
    rename_i named
    split at checked
    · cases checked
    rename_i unknown
    refine ⟨⟨by simpa using named, by simpa using unknown, paid, by omega⟩, ?_⟩
    rw [added] at checked
    split at checked
    · cases checked
    · dsimp only at checked
      split at checked
      · cases checked
        rw [Shares.addExact?_eq_add added]
      · cases checked
  · intro given
    obtain ⟨⟨named, unknown, paid, bounded⟩, rfl⟩ := given
    obtain ⟨fits, total⟩ := toInt_add_of_bounded nonneg paid bounded
    have added : sum.addExact? a.balance = some (sum + a.balance) :=
      Shares.addExact?_eq_some_iff.mpr ⟨fits, total⟩
    have positive : ¬ a.balance < 0 := by
      rw [Int64.lt_iff_toInt_lt, Int64.toInt_zero]
      omega
    have small : sum + a.balance ≤ maxSupply := by
      rw [Int64.le_iff_toInt_le, total]
      exact bounded
    simp [checkAccount, named, unknown, positive, added, small]

theorem checkAll_iff (accounts : List GenesisAccount) (known : List String) (nonneg : 0 ≤ sum.toInt)
    (bounded : sum.toInt ≤ maxSupply.toInt) :
    (∃ result, accounts.foldlM checkAccount (known, sum) = .ok result) ↔
      (∀ a ∈ accounts, Operation.isAccountName a.name = true ∧ a.name ∉ known ∧ 0 ≤ a.balance.toInt) ∧
        (accounts.map GenesisAccount.name).Nodup ∧ sum.toInt + totalOf accounts ≤ maxSupply.toInt := by
  induction accounts generalizing known sum with
  | nil => simpa [totalOf, pure, Except.pure] using bounded
  | cons a rest ih =>
    rw [List.foldlM_cons, totalOf_cons, List.map_cons, List.nodup_cons, List.forall_mem_cons]
    constructor
    · intro given
      obtain ⟨result, run⟩ := given
      obtain ⟨mid, one, run⟩ := exists_of_bind_eq_ok run
      obtain ⟨⟨named, unknown, paid, small⟩, rfl⟩ := (checkAccount_eq_ok_iff nonneg).mp one
      have total := (toInt_add_of_bounded nonneg paid small).2
      obtain ⟨each, distinct, bound⟩ := (ih _ (by omega) (by omega)).mp ⟨result, run⟩
      refine ⟨⟨⟨named, unknown, paid⟩, fun b listed => ?_⟩, ⟨?_, distinct⟩, by omega⟩
      · obtain ⟨named, unknown, paid⟩ := each b listed
        exact ⟨named, fun earlier => unknown (List.mem_cons_of_mem _ earlier), paid⟩
      -- A name that comes again would be a known one by then.
      · intro twice
        obtain ⟨b, listed, same⟩ := List.mem_map.mp twice
        exact (each b listed).2.1 (same ▸ List.mem_cons_self ..)
    · intro given
      obtain ⟨⟨⟨named, unknown, paid⟩, each⟩, ⟨once, distinct⟩, bound⟩ := given
      have others : 0 ≤ totalOf rest := totalOf_nonneg fun b listed => (each b listed).2.2
      have small : sum.toInt + a.balance.toInt ≤ maxSupply.toInt := by omega
      have total := (toInt_add_of_bounded nonneg paid small).2
      rw [(checkAccount_eq_ok_iff nonneg).mpr ⟨⟨named, unknown, paid, small⟩, rfl⟩]
      refine (ih _ (by omega) (by omega)).mpr ⟨fun b listed => ?_, distinct, by omega⟩
      obtain ⟨named, unknown, paid⟩ := each b listed
      refine ⟨named, fun earlier => ?_, paid⟩
      rcases List.mem_cons.mp earlier with same | earlier
      · exact once (List.mem_map.mpr ⟨b, listed, same⟩)
      · exact unknown earlier

theorem check_eq_ok_iff : g.check = .ok () ↔ g.Sensible := by
  have all := checkAll_iff g.accounts [] (show 0 ≤ (0 : Shares).toInt by decide) (by decide)
  rw [Int64.toInt_zero, Int.zero_add] at all
  constructor
  · intro checked
    obtain ⟨each, distinct, bounded⟩ := all.mp (check_eq_ok checked)
    refine ⟨fun none => ?_, fun a listed => (each a listed).1, distinct, fun a listed => ?_, bounded⟩
    · simp [check, none, bind, Except.bind] at checked
    · exact Shares.nonneg_iff.mpr (each a listed).2.2
  · intro sensible
    obtain ⟨result, run⟩ := all.mpr ⟨fun a listed => ⟨sensible.named a listed, List.not_mem_nil,
      Shares.nonneg_iff.mp (sensible.nonneg a listed)⟩, sensible.distinct, sensible.bounded⟩
    have symbol : g.coreAsset.symbol.isEmpty = false := by
      simpa using sensible.symbol
    simp [check, symbol, run]

def seats (accounts : List GenesisAccount) : List String :=
  committeeName :: witnessName :: (accounts.filter fun a => !isReserved a.name).map GenesisAccount.name

def seat (g : Genesis) (name : String) : AccountId := ⟨(seats g.accounts).idxOf name⟩

theorem isReserved_iff : isReserved name = true ↔ name = committeeName ∨ name = witnessName := by
  simp [isReserved]

theorem seats_append (past rest : List GenesisAccount) :
    seats (past ++ rest) =
      seats past ++ (rest.filter fun a => !isReserved a.name).map GenesisAccount.name := by
  simp [seats]

theorem seats_concat_reserved (reserved : isReserved a.name = true) : seats (past ++ [a]) = seats past := by
  simp [seats_append, reserved]

theorem seats_concat_free (free : isReserved a.name = false) : seats (past ++ [a]) = seats past ++ [a.name] := by
  simp [seats_append, free]

theorem mem_seats_of_reserved (reserved : isReserved name = true) : name ∈ seats accounts := by
  rcases isReserved_iff.mp reserved with rfl | rfl
  · exact List.mem_cons_self ..
  · exact List.mem_cons_of_mem _ (List.mem_cons_self ..)

theorem mem_seats_of_mem (listed : a ∈ accounts) : a.name ∈ seats accounts := by
  by_cases reserved : isReserved a.name = true
  · exact mem_seats_of_reserved reserved
  · refine List.mem_cons_of_mem _ (List.mem_cons_of_mem _ (List.mem_map.mpr ⟨a, ?_, rfl⟩))
    exact List.mem_filter.mpr ⟨listed, by simpa using reserved⟩

theorem mem_seats_iff (free : isReserved name = false) :
    name ∈ seats accounts ↔ name ∈ accounts.map GenesisAccount.name := by
  constructor
  · intro seated
    have apart : ¬ (name = committeeName ∨ name = witnessName) := by
      rw [← isReserved_iff, free]
      exact Bool.false_ne_true
    simp only [seats, List.mem_cons] at seated
    rcases seated with rfl | rfl | seated
    · exact absurd (.inl rfl) apart
    · exact absurd (.inr rfl) apart
    · exact List.map_subset _ (List.filter_sublist.subset) seated
  · intro listed
    obtain ⟨a, member, rfl⟩ := List.mem_map.mp listed
    exact mem_seats_of_mem member

theorem nodup_seats (distinct : (accounts.map GenesisAccount.name).Nodup) : (seats accounts).Nodup := by
  have free : ∀ name, isReserved name = true →
      name ∉ (accounts.filter fun a => !isReserved a.name).map GenesisAccount.name := by
    intro name reserved listed
    obtain ⟨a, member, rfl⟩ := List.mem_map.mp listed
    have := (List.mem_filter.mp member).2
    rw [reserved] at this
    cases this
  refine List.nodup_cons.mpr ⟨fun listed => ?_, List.nodup_cons.mpr ⟨free _ rfl, ?_⟩⟩
  · rcases List.mem_cons.mp listed with same | listed
    · exact absurd same (by decide)
    · exact free _ rfl listed
  · exact distinct.sublist (List.filter_sublist.map _)

theorem seat_of_mem (split : past ++ rest = g.accounts) (seated : name ∈ seats past) :
    g.seat name = ⟨(seats past).idxOf name⟩ := by
  rw [seat, ← split, seats_append, List.idxOf_append_of_mem seated]

-- The next name that is not there already gets the next number.
theorem seat_of_next (distinct : (g.accounts.map GenesisAccount.name).Nodup)
    (split : past ++ a :: rest = g.accounts) (free : isReserved a.name = false) :
    a.name ∉ seats past ∧ g.seat a.name = ⟨(seats past).length⟩ := by
  have absent : a.name ∉ seats past := by
    rw [← split, List.map_append, List.map_cons] at distinct
    rw [mem_seats_iff free]
    exact fun earlier => List.disjoint_of_nodup_append distinct earlier (List.mem_cons_self ..)
  refine ⟨absent, ?_⟩
  rw [seat, ← split, seats_append, List.filter_cons_of_pos (by simp [free]), List.map_cons,
    List.idxOf_append_of_notMem absent, List.idxOf_cons_self, Nat.add_zero]

-- The place in the list without the reserved names, behind the two of them, is the place among all.
theorem accountId?_eq (g : Genesis) (name : String) :
    g.accountId? name = ((seats g.accounts).idxOf? name).map RecordId.mk := by
  unfold accountId? seats
  rw [List.idxOf?_cons, List.idxOf?_cons]
  by_cases committee : name = committeeName
  · subst committee
    rfl
  · by_cases witness : name = witnessName
    · subst witness
      rfl
    · rw [if_neg committee, if_neg witness, List.idxOf?, List.findIdx?_map]
      simp only [beq_iff_eq, Ne.symm committee, Ne.symm witness, if_false, Option.map_map]
      refine congrArg (fun place => Option.map place _) (funext fun n => ?_)
      exact congrArg RecordId.mk (Nat.add_comm 2 n)

theorem accountId?_eq_none_iff : g.accountId? name = none ↔ name ∉ seats g.accounts := by
  rw [accountId?_eq, Option.map_eq_none_iff, List.idxOf?_eq_none_iff]

theorem accountId?_eq_seat (seated : name ∈ seats g.accounts) : g.accountId? name = some (g.seat name) := by
  rw [accountId?_eq, seat, List.idxOf_eq_getD_idxOf?]
  cases place : (seats g.accounts).idxOf? name with
  | none => exact absurd seated (List.idxOf?_eq_none_iff.mp place)
  | some n => rfl

theorem accountId?_eq_some_iff (distinct : (g.accounts.map GenesisAccount.name).Nodup) {id : AccountId} :
    g.accountId? name = some id ↔ (seats g.accounts)[id.number]? = some name := by
  constructor
  · intro given
    have seated : name ∈ seats g.accounts := by
      by_contra missing
      rw [accountId?_eq_none_iff.mpr missing] at given
      cases given
    rw [accountId?_eq_seat seated] at given
    cases given
    exact List.getElem?_idxOf seated
  · intro placed
    obtain ⟨inside, found⟩ := List.getElem?_eq_some_iff.mp placed
    rw [accountId?_eq_seat (List.mem_of_getElem? placed), seat, ← found,
      (nodup_seats distinct).idxOf_getElem]

end RoomLedger.Genesis
