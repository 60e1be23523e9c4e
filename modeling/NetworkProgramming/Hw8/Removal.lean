import NetworkProgramming.Hw8.System

/-!
# Removal from the list of clients

The inner loop of the disconnect block increments the index that it shares with
the loop around it before it moves the first cell.  The cell of the client that
left therefore stays, and the one behind it is overwritten; when the list is
full the last turn reads behind the array.  Only the client in the last place
is removed as it should be.
-/

namespace NetworkProgramming.Hw8

open MachineInt

section removal

variable {found clnt_cnt clnt_sock : Nat} {clnt_socks shifted : CArray Nat MAX_CLNT}

/-- The loop moves down what stands behind the cell after the one found. -/
theorem shift_eq_moveDown (found clnt_cnt : Nat) (clnt_socks : CArray Nat MAX_CLNT) :
    shift found clnt_cnt clnt_socks =
      clnt_socks.moveDown (found + 1) (clnt_cnt - 1 - found) := by
  apply forLoop_congr
  intro turn _ array
  simp only [Nat.add_right_comm found 1 turn]

theorem take_shift (behind : found + 1 < clnt_cnt)
    (ran : shift found clnt_cnt clnt_socks = some shifted) :
    shifted.cells.take (clnt_cnt - 1) =
      (clnt_socks.cells.take clnt_cnt).eraseIdx (found + 1) := by
  rw [shift_eq_moveDown] at ran
  have used : clnt_cnt - 1 + 1 = clnt_cnt := by omega
  have kept : shifted.cells.take (clnt_cnt - 1) =
      (clnt_socks.cells.take (clnt_cnt - 1 + 1)).eraseIdx (found + 1) :=
    CArray.take_moveDown ran (by omega) (by omega)
  rw [kept, used]

theorem shift_last (last : found + 1 = clnt_cnt) :
    shift found clnt_cnt clnt_socks = some clnt_socks := by
  have none_left : clnt_cnt - 1 - found = 0 := by omega
  rw [shift, none_left, forLoop_zero]

theorem findIdx?_of_distinct {items : List Nat} {item position : Nat}
    (distinct : items.Nodup) (there : items[position]? = some item) :
    items.findIdx? (· = item) = some position := by
  obtain ⟨inside, isItem⟩ := List.getElem?_eq_some_iff.mp there
  refine List.findIdx?_eq_some_iff_getElem.mpr ⟨inside, by simpa using isItem, ?_⟩
  intro earlier before isItemToo
  have same : earlier = position :=
    distinct.getElem_inj_iff.mp ((of_decide_eq_true isItemToo).trans isItem.symm)
  omega

theorem disconnect_found {position : Nat}
    (distinct : (clnt_socks.cells.take clnt_cnt).Nodup)
    (there : (clnt_socks.cells.take clnt_cnt)[position]? = some clnt_sock) :
    disconnect clnt_socks clnt_cnt clnt_sock =
      (shift position clnt_cnt clnt_socks).map fun shifted =>
        (shifted, (clnt_cnt : Int) - 1) := by
  have found := findIdx?_of_distinct distinct there
  simp only [disconnect, Int.toNat_natCast, found]
  cases shift position clnt_cnt clnt_socks <;> rfl

end removal

/-- The block removes the socket, and nothing else, exactly from the last place
of the list. -/
theorem disconnect_removes_iff_last {clnt_cnt position clnt_sock : Nat}
    {clnt_socks : CArray Nat MAX_CLNT}
    (distinct : (clnt_socks.cells.take clnt_cnt).Nodup)
    (bound : clnt_cnt ≤ MAX_CLNT)
    (there : (clnt_socks.cells.take clnt_cnt)[position]? = some clnt_sock) :
    (∃ result, disconnect clnt_socks clnt_cnt clnt_sock =
        some (result, (clnt_cnt : Int) - 1) ∧
      result.cells.take (clnt_cnt - 1) =
        (clnt_socks.cells.take clnt_cnt).erase clnt_sock) ↔
      position + 1 = clnt_cnt := by
  have size := clnt_socks.length_cells
  obtain ⟨inside, isSocket⟩ := List.getElem?_eq_some_iff.mp there
  have length : (clnt_socks.cells.take clnt_cnt).length = clnt_cnt := by
    rw [List.length_take]
    omega
  rw [disconnect_found distinct there]
  constructor
  · intro given
    obtain ⟨result, ran, removed⟩ := given
    obtain ⟨shifted, moved, same⟩ := Option.map_eq_some_iff.mp ran
    cases same
    apply Classical.byContradiction
    intro notLast
    rw [take_shift (by omega) moved] at removed
    -- The cell found is still there.
    have stays : clnt_sock ∈ (clnt_socks.cells.take clnt_cnt).eraseIdx (position + 1) :=
      List.mem_eraseIdx_iff_getElem?.mpr ⟨position, by omega, there⟩
    rw [removed] at stays
    exact distinct.not_mem_erase stays
  · intro last
    refine ⟨clnt_socks, by rw [shift_last last]; rfl, ?_⟩
    have isLast : clnt_cnt - 1 = position := by omega
    have erased := distinct.erase_getElem position inside
    rw [isSocket] at erased
    rw [erased, List.eraseIdx_eq_take_drop_succ, List.take_take, List.drop_take, last,
      isLast]
    simp
    omega

/-- Descriptors 4 and 5 are registered. -/
def twoClients : CArray Nat MAX_CLNT := (CArray.replicate MAX_CLNT 0).fill [4, 5]

theorem disconnect_removes_iff_last_twoClients :
    ∃ result, disconnect twoClients 2 5 = some (result, 1) ∧
      result.cells.take 1 = [4] := by
  have distinct : (twoClients.cells.take 2).Nodup := by decide
  have there : (twoClients.cells.take 2)[1]? = some 5 := by decide
  exact (disconnect_removes_iff_last distinct (by decide) there).mpr rfl

/-- When the first of the two leaves, the list keeps it and drops the other. -/
theorem disconnect_drops_live_client :
    (twoClients.cells.take 2)[0]? = some 4 ∧
      ∃ result, disconnect twoClients 2 4 = some (result, 1) ∧
        result.cells.take 1 = [4] ∧
        result.cells.take 1 ≠ (twoClients.cells.take 2).erase 4 :=
  ⟨by decide, (twoClients.moveDown 1 1).getD twoClients, by decide +kernel, by decide,
    by decide⟩

end NetworkProgramming.Hw8
