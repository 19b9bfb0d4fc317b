import MockOS.Fs.Directory

namespace MockOS.Fs

variable {path token : CString}

theorem mem_pathTokens (member : token ∈ pathTokens path) :
    token ≠ [] ∧ 47 ∉ token ∧ ∀ value ∈ token, value ∈ path := by
  obtain ⟨part, notEmpty⟩ := List.mem_filter.mp member
  exact ⟨by simpa using notEmpty, fun inside => (mem_splitOn part inside).2 rfl, fun value inside =>
    (mem_splitOn part inside).1⟩

@[simp] theorem pathTokens_slash (path : CString) : pathTokens (47 :: path) = pathTokens path := by
  simp [pathTokens, List.splitOn_cons_eq_if_modifyHead]

theorem pathTokens_token (notEmpty : token ≠ []) (noSlash : 47 ∉ token) (rest : CString) :
    pathTokens (token ++ 47 :: rest) = token :: pathTokens rest := by
  rw [pathTokens, List.splitOn_append_cons_of_beq _ _ (beq_self_eq_true 47), List.splitOn_eq_singleton noSlash]
  simp [pathTokens, notEmpty]

theorem pathTokens_single (notEmpty : token ≠ []) (noSlash : 47 ∉ token) :
    pathTokens token = [token] := by
  rw [pathTokens, List.splitOn_eq_singleton noSlash]
  simp [notEmpty]

theorem pathTokens_join (tokens : List CString) (good : ∀ token ∈ tokens, token ≠ [] ∧ 47 ∉ token) :
    pathTokens (tokens.flatMap (· ++ [47])) = tokens := by
  induction tokens with
  | nil => rfl
  | cons token rest ih =>
      obtain ⟨notEmpty, noSlash⟩ := good token List.mem_cons_self
      rw [List.flatMap_cons, List.append_assoc, List.singleton_append, pathTokens_token notEmpty noSlash,
        ih fun other member => good other (List.mem_cons_of_mem _ member)]

/-- The directory of a path has the tokens of the path but the last one. -/
theorem pathTokens_directory (path : CString) : pathTokens (splitPathFilename path).1 = (pathTokens path).dropLast := by
  have joined := pathTokens_join (pathTokens path).dropLast fun token member =>
    ⟨(mem_pathTokens (List.dropLast_subset _ member)).1, (mem_pathTokens (List.dropLast_subset _ member)).2.1⟩
  rw [splitPathFilename]
  split_ifs
  · exact (pathTokens_slash _).trans joined
  · exact joined

theorem fileName_eq (noSlash : 47 ∉ path) : (splitPathFilename path).2 = path := by
  by_cases empty : path = []
  · rw [empty]
    rfl
  · rw [splitPathFilename, pathTokens_single empty noSlash]
    rfl

end MockOS.Fs
