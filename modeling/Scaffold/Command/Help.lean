/-!
# Help texts

What each command shows when it is asked for help.
-/

namespace Scaffold.Command

/-- A text of lines, each with its line end. -/
def helpText (lines : List String) : String := String.join (lines.map (· ++ "\n"))

/-- The help of the program. -/
def mainHelp : String := helpText
  ["usage: vitesmith [-h] [-v] \x7bapply,render\x7d ...",
   "",
   "Compose optional features into a Vite + Vue project",
   "",
   "positional arguments:",
   "  \x7bapply,render\x7d",
   "    apply         apply features to a project scaffolded by 'create vite'",
   "    render        render a template file with line-conditional placeholders",
   "",
   "options:",
   "  -h, --help      show this help message and exit",
   "  -v, --verbose   Increase log output (repeat for debug output)"]

/-- The help of the command that applies features. -/
def applyHelp : String := helpText
  ["usage: vitesmith apply [-h] [-n NAME] [-t \x7bvue,vue-ts\x7d]",
   "                       [--package-manager \x7bpnpm,npm\x7d] [--router] [--store]",
   "                       [--eslint] [--css \x7bnone,sass,less,lightningcss\x7d]",
   "                       [--unocss] [--git-hooks]",
   "                       directory",
   "",
   "positional arguments:",
   "  directory             Directory of the seed project",
   "",
   "options:",
   "  -h, --help            show this help message and exit",
   "  -n NAME, --name NAME  Project name (defaults to the directory name)",
   "  -t \x7bvue,vue-ts\x7d, --template \x7bvue,vue-ts\x7d",
   "                        Template the seed was created from",
   "  --package-manager \x7bpnpm,npm\x7d",
   "  --router              Add Vue Router",
   "  --store               Add Pinia",
   "  --eslint              Add ESLint",
   "  --css \x7bnone,sass,less,lightningcss\x7d",
   "                        CSS pre-processor or transformer",
   "  --unocss              Add UnoCSS",
   "  --git-hooks           Add husky, lint-staged and commitlint"]

/-- The help of the command that renders a template. -/
def renderHelp : String := helpText
  ["usage: vitesmith render [-h] [-c KEY[=VALUE]] [-o OUTPUT] template",
   "",
   "positional arguments:",
   "  template              Path to the template file",
   "",
   "options:",
   "  -h, --help            show this help message and exit",
   "  -c KEY[=VALUE], --context KEY[=VALUE]",
   "                        Values exposed to the template renderer; KEY= drops",
   "                        the line, a bare KEY keeps it",
   "  -o OUTPUT, --output OUTPUT",
   "                        Write the rendered template to this path instead of",
   "                        stdout"]

end Scaffold.Command
