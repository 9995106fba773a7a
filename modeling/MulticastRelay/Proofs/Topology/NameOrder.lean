import MulticastRelay.Proofs.Topology.Families
import MulticastRelay.Proofs.Topology.Intact

/-! # Names in order

The names of groups stand in order, compared octet by octet as they are encoded. The encoding keeps the
order of characters, so names with a common start stand together, and the walk that begins
at a name lists its family in this order, each group once.
-/
namespace MulticastRelay.Topology

variable {t : Topology}

/-- The octets of a name. -/
def octetsOf (name : String) : List UInt8 := name.toByteArray.data.toList

theorem octetsOf_eq (name : String) :
    octetsOf name = name.toList.flatMap String.utf8EncodeChar := by
  rw [octetsOf, ← String.utf8Encode_toList, List.utf8Encode, List.toList_data_toByteArray]

/-- Of two characters the smaller one is encoded as the smaller text, whatever follows them. -/
theorem utf8EncodeChar_append_lt {c d : Char} (h : c < d) (xs ys : List UInt8) :
    String.utf8EncodeChar c ++ xs < String.utf8EncodeChar d ++ ys := by
  have hlt : c.val.toNat < d.val.toNat := h
  have hd : d.val.toNat < 1114112 := by
    rcases d.valid with h | ⟨-, h⟩
    · exact Nat.lt_trans h (by decide)
    · exact h
  -- the sextets of a code point, the last first
  have hsplit : ∀ n : Nat, n / 4096 = n / 64 / 64 ∧ n / 262144 = n / 64 / 64 / 64 := by omega
  simp only [String.utf8EncodeChar, (hsplit _).1, (hsplit _).2]
  split_ifs <;>
    simp only [List.cons_append, List.nil_append, List.cons_lt_cons_iff, UInt8.lt_iff_toNat_lt,
      ← UInt8.toNat_inj, UInt8.toNat_ofNat'] <;>
    omega

theorem flatMap_utf8EncodeChar_lt {cs ds : List Char} (h : cs < ds) :
    cs.flatMap String.utf8EncodeChar < ds.flatMap String.utf8EncodeChar := by
  induction cs generalizing ds with
  | nil =>
    cases ds with
    | nil => cases h
    | cons d ds =>
      rw [List.flatMap_nil, List.flatMap_cons]
      cases he : String.utf8EncodeChar d with
      | nil => exact absurd he (String.utf8EncodeChar_ne_nil)
      | cons x xs => exact List.nil_lt_cons _ _
  | cons c cs ih =>
    cases ds with
    | nil => cases h
    | cons d ds =>
      rw [List.flatMap_cons, List.flatMap_cons]
      rcases List.cons_lt_cons_iff.1 h with hlt | ⟨rfl, htail⟩
      · exact utf8EncodeChar_append_lt hlt _ _
      · exact List.append_left_lt (ih htail)

theorem octetsOf_lt {a b : String} (h : a < b) : octetsOf a < octetsOf b := by
  rw [octetsOf_eq, octetsOf_eq]
  exact flatMap_utf8EncodeChar_lt (String.lt_iff.1 h)

/-- A family is the name itself and all that follows it after the mark. -/
theorem inFamily_iff_append {base name : String} :
    InFamily base name ↔ name = base ∨ ∃ rest, name = base ++ ":" ++ rest := by
  have hmark : ∀ rest, instanceName base rest = base ++ ":" ++ rest := by
    intro rest
    rw [instanceName, String.push_eq_append]
    rfl
  simp only [InFamily, hmark]

/-- The walk from a name lists its family: every group of that name, or of a name that goes on with the
mark after it, in the order of names and once, whatever other groups there are. -/
theorem family_listed (h : Reachable t) (base : String) :
    ∃ gs : List Group,
      t.groupsSharingName base = gs.map (·.id) ∧
      (∀ g, g ∈ gs ↔ g ∈ t.groups ∧ (g.name = base ∨ ∃ rest, g.name = base ++ ":" ++ rest)) ∧
      gs.Pairwise (fun g k => octetsOf g.name < octetsOf k.name) ∧
      (t.groupsSharingName base).Nodup := by
  have hi := h.intact
  have hwalk := hi.groupsSharingName_eq base
  refine ⟨_, hwalk, ?_, ?_, ?_⟩
  · intro g
    rw [List.mem_filter, hi.mem_groupsByName, Bool.and_eq_true, ← inFamily_iff, inFamily_iff_append]
  · exact (hi.groupsByName_ordered.filter _).imp octetsOf_lt
  · rw [hwalk]
    exact ((hi.groupsByName_perm.map Group.id).nodup_iff.2 hi.handles).sublist
      (List.filter_sublist.map _)

/-! ## A family among its neighbours -/

/-- A family of three, and names that sort before it, after it and between its members. -/
def neighbourhood : List Event :=
  ["ppp:ppp0", "pppy", "ppp-x", "pp", "ppp", "ppp:ppp1", "pppé:x"].map
    (.addGroup · .push .classicalFlooding)

theorem neighbourhood_family_listed :
    (neighbourhood.foldl next empty).groupsByName.map (·.name) =
        ["pp", "ppp", "ppp-x", "ppp:ppp0", "ppp:ppp1", "pppy", "pppé:x"] ∧
      ∃ gs : List Group,
        [⟨5⟩, ⟨1⟩, ⟨6⟩] = gs.map (·.id) ∧
        (∀ g, g ∈ gs ↔ g ∈ (neighbourhood.foldl next empty).groups ∧
          (g.name = "ppp" ∨ ∃ rest, g.name = "ppp" ++ ":" ++ rest)) ∧
        gs.Pairwise (fun g k => octetsOf g.name < octetsOf k.name) := by
  refine ⟨by decide +kernel, ?_⟩
  obtain ⟨gs, hwalk, hmem, horder, -⟩ :=
    family_listed (reachable_foldl .empty neighbourhood) "ppp"
  have hids : (neighbourhood.foldl next empty).groupsSharingName "ppp" = [⟨5⟩, ⟨1⟩, ⟨6⟩] := by
    decide +kernel
  exact ⟨gs, hids.symm.trans hwalk, hmem, horder⟩

end MulticastRelay.Topology
