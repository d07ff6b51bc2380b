import Scaffold.Feature

/-!
# Commit checks

The feature adds the checks that run when changes are committed: the changed files are linted, and
the message has to follow the conventions.
-/

namespace Scaffold.Feature

/-- What runs before a commit. -/
def preCommitHook : String := "npx lint-staged\n"

/-- What checks the message of a commit. -/
def commitMessageHook : String := "npx commitlint --edit \"$1\"\n"

/-- The settings of the tool that helps to write messages. -/
def messageToolConfig : Entries Json :=
  [("commitizen", .obj [("path", .str "cz-conventional-changelog")])]

/-- What the commit check feature asks for. -/
def commitEffects : Effects where
  devDependencies :=
    ["husky", "lint-staged", "commitizen", "cz-conventional-changelog", "@commitlint/cli",
     "@commitlint/config-conventional"]
  scripts := [("cz", "cz"), ("prepare", "husky")]
  lintStaged := [("*.\x7bjs,ts,vue\x7d", "npx eslint --fix")]
  packageConfig := messageToolConfig

/-- The commit check feature. -/
def commitChecks (src : Template.Source) : Provider where
  name := "git-hooks"
  selected o := o.gitHooks
  install project o := do
    src.emit "git/commitlint.config.js.tpl" (below project ["commitlint.config.js"]) (context o)
    Disk.write (below project [".husky", "pre-commit"]) preCommitHook
    Disk.write (below project [".husky", "commit-msg"]) commitMessageHook
    return commitEffects

end Scaffold.Feature
