import Scaffold.Tree

/-!
# Shipped templates

The templates that come with the program, each a list of lines, and the directory they are found in
as a tree of its own.
-/

namespace Scaffold.Template.Shipped

/-- A text of lines, each with its line end. -/
def ofLines (lines : List String) : String := String.join (lines.map (· ++ "\n"))

/-- The configuration of the linter. -/
def lintConfig : String := ofLines
  ["import antfu from '@antfu/eslint-config'",
   "",
   "export default antfu(\x7b",
   "  vue: true,",
   "  \x7b\x7b typeScriptConfig \x7d\x7d",
   "  \x7b\x7b unoESLintConfig \x7d\x7d",
   "  ignores: [",
   "    'dist',",
   "    'node_modules',",
   "  ],",
   "\x7d)"]

/-- The configuration of the commit message checker. -/
def commitConfig : String := ofLines
  ["export default \x7b",
   "  extends: ['@commitlint/config-conventional'],",
   "\x7d"]

/-- The description of a project. -/
def readme : String := ofLines
  ["# \x7b\x7b projectName \x7d\x7d",
   "",
   "A Vue 3 application built with Vite.",
   "",
   "## Features",
   "",
   "\x7b\x7b features \x7d\x7d",
   "",
   "## Getting started",
   "",
   "\x60\x60\x60bash",
   "\x7b\x7b packageManager \x7d\x7d install",
   "\x7b\x7b packageManager \x7d\x7d dev",
   "\x60\x60\x60",
   "",
   "## Scripts",
   "",
   "- \x60\x7b\x7b packageManager \x7d\x7d dev\x60: start the development server.",
   "- \x60\x7b\x7b packageManager \x7d\x7d build\x60: type-check and build for production.",
   "- \x60\x7b\x7b packageManager \x7d\x7d preview\x60: preview the production build locally.",
   "\x7b\x7b lintScript \x7d\x7d",
   "",
   "## Project structure",
   "",
   "\x60\x60\x60text",
   "\x7b\x7b projectName \x7d\x7d/",
   "├── public/",
   "├── src/",
   "│   ├── assets/",
   "│   ├── components/",
   "\x7b\x7b routerDir \x7d\x7d",
   "\x7b\x7b storeDir \x7d\x7d",
   "\x7b\x7b viewsDir \x7d\x7d",
   "│   ├── App.vue",
   "│   └── main.\x7b\x7b mainFileExtension \x7d\x7d",
   "├── index.html",
   "├── package.json",
   "\x7b\x7b tsconfig \x7d\x7d",
   "\x7b\x7b eslintConfig \x7d\x7d",
   "\x7b\x7b unocssConfig \x7d\x7d",
   "\x7b\x7b commitlintConfig \x7d\x7d",
   "└── vite.config.\x7b\x7b viteConfigExtension \x7d\x7d",
   "\x60\x60\x60",
   "",
   "\x7b\x7b codeQualityTools \x7d\x7d",
   "## Learn more",
   "",
   "- [Vue documentation](https://vuejs.org/)",
   "- [Vite documentation](https://vite.dev/)"]

/-- The section of the description that is about linting. -/
def readmeLinting : String := ofLines
  ["### ESLint",
   "",
   "Linting uses [@antfu/eslint-config](https://github.com/antfu/eslint-config).",
   "Run \x60\x7b\x7b packageManager \x7d\x7d run lint\x60 to check the code and fix what can be fixed",
   "automatically."]

/-- The section of the description that is about commits. -/
def readmeCommits : String := ofLines
  ["### Commit conventions",
   "",
   "- Staged files are linted by \x60lint-staged\x60 before every commit.",
   "- Commit messages are checked against the",
   "  [Conventional Commits](https://www.conventionalcommits.org/) format by",
   "  \x60commitlint\x60.",
   "- Run \x60\x7b\x7b packageManager \x7d\x7d run cz\x60 to write a commit message interactively."]

/-- The frame around the sections on code quality. -/
def readmeQuality : String := ofLines
  ["## Code quality",
   "",
   "\x7b\x7b eslintSection \x7d\x7d",
   "\x7b\x7b gitHooksSection \x7d\x7d"]

/-- The view of the first route. -/
def homeView : String := ofLines
  ["<script setup>",
   "</script>",
   "",
   "<template>",
   "  <main>",
   "    <h1>\x7b\x7b projectName \x7d\x7d</h1>",
   "    <p>Edit <code>src/views/Home.vue</code> to get started.</p>",
   "  </main>",
   "</template>"]

/-- The routes, untyped. -/
def routes : String := ofLines
  ["import \x7b createRouter, createWebHistory \x7d from 'vue-router'",
   "import Home from '../views/Home.vue'",
   "",
   "const routes = [",
   "  \x7b",
   "    path: '/',",
   "    name: 'home',",
   "    component: Home,",
   "  \x7d,",
   "]",
   "",
   "const router = createRouter(\x7b",
   "  history: createWebHistory(import.meta.env.BASE_URL),",
   "  routes,",
   "\x7d)",
   "",
   "export default router"]

/-- The routes, typed. -/
def typedRoutes : String := ofLines
  ["import type \x7b RouteRecordRaw \x7d from 'vue-router'",
   "import \x7b createRouter, createWebHistory \x7d from 'vue-router'",
   "import Home from '../views/Home.vue'",
   "",
   "const routes: RouteRecordRaw[] = [",
   "  \x7b",
   "    path: '/',",
   "    name: 'home',",
   "    component: Home,",
   "  \x7d,",
   "]",
   "",
   "const router = createRouter(\x7b",
   "  history: createWebHistory(import.meta.env.BASE_URL),",
   "  routes,",
   "\x7d)",
   "",
   "export default router"]

/-- The example store, untyped. -/
def counterStore : String := ofLines
  ["import \x7b defineStore \x7d from 'pinia'",
   "import \x7b computed, ref \x7d from 'vue'",
   "",
   "export const useCounterStore = defineStore('counter', () => \x7b",
   "  const count = ref(0)",
   "  const doubleCount = computed(() => count.value * 2)",
   "",
   "  function increment() \x7b",
   "    count.value++",
   "  \x7d",
   "",
   "  return \x7b count, doubleCount, increment \x7d",
   "\x7d)"]

/-- The example store, typed. -/
def typedCounterStore : String := ofLines
  ["import \x7b defineStore \x7d from 'pinia'",
   "import \x7b computed, ref \x7d from 'vue'",
   "",
   "export const useCounterStore = defineStore('counter', () => \x7b",
   "  const count = ref<number>(0)",
   "  const doubleCount = computed(() => count.value * 2)",
   "",
   "  function increment(): void \x7b",
   "    count.value++",
   "  \x7d",
   "",
   "  return \x7b count, doubleCount, increment \x7d",
   "\x7d)"]

/-- The instance that holds the stores, untyped. -/
def storeInstance : String := ofLines
  ["import \x7b createPinia \x7d from 'pinia'",
   "",
   "const pinia = createPinia()",
   "",
   "export default pinia"]

/-- The instance that holds the stores, typed. -/
def typedStoreInstance : String := ofLines
  ["import \x7b createPinia \x7d from 'pinia'",
   "",
   "const pinia = createPinia()",
   "",
   "export default pinia"]

/-- The configuration of the utility class engine. -/
def utilityConfig : String := ofLines
  ["import \x7b",
   "  defineConfig,",
   "  presetAttributify,",
   "  presetIcons,",
   "  presetWind3,",
   "  transformerDirectives,",
   "  transformerVariantGroup,",
   "\x7d from 'unocss'",
   "",
   "export default defineConfig(\x7b",
   "  presets: [",
   "    presetWind3(),",
   "    presetAttributify(),",
   "    presetIcons(),",
   "  ],",
   "  transformers: [",
   "    transformerDirectives(),",
   "    transformerVariantGroup(),",
   "  ],",
   "\x7d)"]

/-- The settings of the editor. -/
def editorSettings : String := ofLines
  ["\x7b",
   "  \"editor.tabSize\": 2,",
   "\x7b\x7b eslintSettings \x7d\x7d",
   "  \"files.eol\": \"\\n\"",
   "\x7d"]

/-- The templates by their names. -/
def files : List (String × String) :=
  [("eslint/eslint.config.js.tpl", lintConfig),
   ("git/commitlint.config.js.tpl", commitConfig),
   ("readme/README.md.tpl", readme),
   ("readme/eslint.md.tpl", readmeLinting),
   ("readme/git-hooks.md.tpl", readmeCommits),
   ("readme/quality-tools.md.tpl", readmeQuality),
   ("router/Home.vue.tpl", homeView),
   ("router/router.js.tpl", routes),
   ("router/router.ts.tpl", typedRoutes),
   ("store/counter.js.tpl", counterStore),
   ("store/counter.ts.tpl", typedCounterStore),
   ("store/index.js.tpl", storeInstance),
   ("store/index.ts.tpl", typedStoreInstance),
   ("unocss/uno.config.js.tpl", utilityConfig),
   ("vscode/settings.json.tpl", editorSettings)]

/-- The directory that the templates are found in. -/
def home : Path := ⟨.root, ["usr", "share", "scaffold", "templates"]⟩

/-- The directories of the templates, and those on the way to them. -/
def directories : List (List String) :=
  [home.parts.take 1, home.parts.take 2, home.parts.take 3, home.parts] ++
    ["eslint", "git", "readme", "router", "store", "unocss", "vscode"].map (home.parts ++ [·])

/-- The tree of the templates. -/
def tree : Tree :=
  ⟨directories.map (·, Node.directory) ++
    files.map fun (name, text) => (home.parts ++ (Path.ofString name).parts, Node.file text.toUTF8)⟩

end Scaffold.Template.Shipped
